import FactoryIndex.Failure
import FactoryIndex.Number.Seconds
import FactoryIndex.OrderedMap
import FactoryIndex.Text.Utf8
import FactoryIndex.Workspace.Path

/-!
# Directory trees

A tree holds files by their paths, and the directories they lie in. A relative path leads on from the
working directory, an absolute one from its root, and double dots lead to the directory above the one
that has been reached. Files and directories are kept under paths that have double dots in front only, to
leave the working directory; the directories above it are known to exist. Directories are made as files
need them, and stay when the files are gone. A *dangling* entry is listed like a file but has nothing
behind it.
-/

namespace FactoryIndex

/-- An entry of a directory that is not a directory itself. -/
inductive FileNode where
  | file (bytes : List UInt8) (modified : Int)
  | dangling
  deriving Repr, DecidableEq

/-- The files and directories that are known. -/
structure Tree where
  files : OrderedMap Path FileNode := .empty
  folders : List Path := []

/-- What lies under a path. A path is *blocked* if it leads through a file. -/
inductive Place where
  | folder (path : Path)
  | file (path : Path) (node : FileNode)
  | missing
  | blocked
  | tooLong
  deriving Repr, DecidableEq

namespace Tree

/-- The time at which every directory was last modified. -/
def folderModified : Int := reading 900000000

/-- Makes a directory, unless it exists. -/
def makeFolder (tree : Tree) (folder : Path) : Tree :=
  if tree.folders.contains folder then tree else { tree with folders := folder :: tree.folders }

/-- Goes on from a directory by the given names and makes the directories that are missing on the way.
The directory that is reached comes with the tree. -/
def enter : (tree : Tree) → (here : Path) → List RawText → Tree × Path
  | tree, here, [] => (tree, here)
  | tree, here, name :: rest =>
    if name = ".." then enter tree here.up rest
    else enter (tree.makeFolder (here.child name)) (here.child name) rest

/-- Makes the directory that a path leads to, with those on the way. -/
def makeFolders (tree : Tree) (path : Path) : Tree := (tree.enter ⟨path.root, []⟩ path.parts).1

/-- Writes an entry and makes the directories on the way to it. A path that ends in double dots is no
place for an entry. -/
def write (tree : Tree) (path : Path) (node : FileNode) : Tree :=
  let (tree, folder) := tree.enter ⟨path.root, []⟩ path.parts.dropLast
  match path.parts.getLast? with
  | some name =>
    if name = ".." then tree
    else { tree with files := tree.files.insert (folder.child name) node }
  | none => tree

/-- Follows names from a directory. A name that is too long is noticed once the directory it should lie in
is reached. -/
def follow (tree : Tree) : (here : Path) → List RawText → Place
  | here, [] => .folder here
  | here, name :: rest =>
    if name = ".." then follow tree here.up rest
    else if Path.longestName < name.byteSize then .tooLong
    else
      let there := here.child name.named
      match tree.files.get? there with
      | some node =>
        if rest.isEmpty then .file there node
        else match node with
          | .file .. => .blocked
          | .dangling => .missing
      | none => if tree.folders.contains there then follow tree there rest else .missing

def place (tree : Tree) (path : Path) : Place :=
  if Path.lengthLimit ≤ path.toText.byteSize then .tooLong
  else tree.follow ⟨path.root, []⟩ path.parts

/-- Removes the entry that a path leads to. Its directories stay. -/
def delete (tree : Tree) (path : Path) : Tree :=
  match tree.place path with
  | .file there _ => { tree with files := tree.files.erase there }
  | _ => tree

/-- Why a path cannot lead anywhere, whatever the tree holds. -/
def pathFault? (path : Path) : Option Failure :=
  if path.unencodable then some (.unencodablePath path.toText)
  else if path.hasNul then some .nulInPath
  else none

def read (tree : Tree) (path : Path) : Except Failure (List Char) :=
  match pathFault? path with
  | some failure => .error failure
  | none =>
    match tree.place path with
    | .file _ (.file bytes _) => .ok (Text.ofBytes bytes)
    | .file _ .dangling | .missing => .error (.noSuchFile path.toText)
    | .folder _ => .error (.openedDirectory path.toText)
    | .blocked => .error (.throughFile path.toText)
    | .tooLong => .error (.nameTooLong path.toText)

/-- The time at which what lies under a path was last modified. -/
def modified (tree : Tree) (path : Path) : Except Failure Int :=
  match pathFault? path with
  | some failure => .error failure
  | none =>
    match tree.place path with
    | .file _ (.file _ modified) => .ok modified
    | .file _ .dangling | .missing => .error (.noSuchFile path.toText)
    | .folder _ => .ok folderModified
    | .blocked => .error (.throughFile path.toText)
    | .tooLong => .error (.nameTooLong path.toText)

/-- The paths of all entries below a directory, as parts relative to it. -/
def below (tree : Tree) (folder : Path) : List (List RawText) :=
  tree.files.keys.filterMap fun path =>
    let parts := path.parts.drop folder.parts.length
    if path.root = folder.root ∧ folder.parts.isPrefixOf path.parts ∧ parts ≠ [] ∧
        parts.head? ≠ some (.plain "..") then
      some parts
    else none

end Tree

end FactoryIndex
