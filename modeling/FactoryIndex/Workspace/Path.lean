import FactoryIndex.Text.RawText

/-!
# Paths

A path is the list of its parts between slashes, with a root in front if it is absolute. Empty parts and
single dots mean nothing and are left out; double dots are kept, since what they lead to depends on the
directories. Exactly two slashes in front are a root of their own.
-/

namespace FactoryIndex

/-- A path: its root, which is empty for a relative path, and its parts. -/
structure Path where
  root : String
  parts : List RawText
  deriving Repr, DecidableEq

namespace Path

/-- The root that a number of leading slashes stands for. -/
def rootOfSlashes (slashes : Nat) : String :=
  if slashes = 0 then "" else if slashes = 2 then "//" else "/"

def ofText (text : RawText) : Path :=
  ⟨rootOfSlashes (text.points.takeWhile (· == .char '/')).length,
    (text.split '/').filter fun part => part != "" && part != "."⟩

/-- The path that leads on from the first one; an absolute path starts over. -/
def join (base path : Path) : Path :=
  if path.root.isEmpty then ⟨base.root, base.parts ++ path.parts⟩ else path

/-- The path of what a directory holds under a name. -/
def child (folder : Path) (name : RawText) : Path := ⟨folder.root, folder.parts ++ [name]⟩

/-- The directory above. What lies above the working directory has no other name than double dots, and
nothing lies above a root but the root itself. -/
def up (path : Path) : Path :=
  match path.parts.getLast? with
  | some name => if name = ".." then path.child name else ⟨path.root, path.parts.dropLast⟩
  | none => if path.root.isEmpty then path.child ".." else path

def joined : List RawText → RawText
  | [] => ""
  | [name] => name
  | name :: rest => name ++ ("/" ++ joined rest)

def toText (path : Path) : RawText :=
  if path.root.isEmpty && path.parts.isEmpty then "." else path.root ++ joined path.parts

/-- The path as its files are listed: a part that spells out the bytes of characters is these characters. -/
def named (path : Path) : Path := ⟨path.root, path.parts.map RawText.named⟩

/-- The length of a path in bytes at which it is too long. -/
def lengthLimit : Nat := 4096

/-- The length of the longest name in bytes. -/
def longestName : Nat := 255

/-- Whether a path holds a NUL, which no file can have in its name. -/
def hasNul (path : Path) : Bool := path.parts.any fun part => part.points.contains (.char '\x00')

/-- Whether a path holds half a surrogate pair that stands for no byte. -/
def unencodable (path : Path) : Bool := path.parts.any RawText.unencodable

end Path

end FactoryIndex
