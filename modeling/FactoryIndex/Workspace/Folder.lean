import FactoryIndex.NameSet
import FactoryIndex.Workspace.Glob
import FactoryIndex.Workspace.Tree

/-!
# Project folders

A project lies in a folder, and its files are known by their paths relative to it, with forward slashes.
Listing a folder goes through all its directories except for those that hold nothing of interest, such
as dependencies and logs. A file's rank is the first of the configured parts of paths that its own path
holds; files are indexed in the order of their ranks.
-/

namespace FactoryIndex

def skippedFolders : List RawText := [
  ".git", ".hg", ".svn", "node_modules", ".venv", "venv", "__pycache__", "tmp", "log", "vendor",
  ".bundle", "coverage"
]

/-- The name by which a file of a folder is known; only the slashes of its directories are turned. -/
def fileName (parts : List RawText) : RawText :=
  let folder := parts.dropLast.map RawText.forwardSlashes
  Path.joined (folder ++ parts.getLast?.toList)

/-- The path by which globs know a file: one slash in front is left out, or else a dot and its slash. -/
def globPath : List Point → List Point
  | .char '/' :: rest => rest
  | .char '.' :: .char '/' :: rest => rest
  | path => path

/-- The files of a folder that the globs select, sorted by name. Blank globs are left out, and without
any glob nothing is listed. -/
def Tree.list (tree : Tree) (folder : Path) (globs : List RawText) : Except Failure (List RawText) :=
  let lines := (globs.filter fun glob => !glob.trim.isEmpty).map RawText.forwardSlashes
  if lines.isEmpty then .ok []
  else
    match Glob.parseAll lines with
    | .error failure => .error failure
    | .ok globs =>
      match Tree.pathFault? folder with
      | some failure => .error failure
      | none =>
        match tree.place folder with
        | .folder path =>
          let visible := (tree.below path).filter fun file =>
            file.dropLast.all fun part => !skippedFolders.contains part
          let names := (visible.map fileName).filter fun name =>
            Glob.selects globs (globPath name.points)
          .ok (RawText.sorted names).eraseDups
        | _ => .ok []

/-! ### Order of files -/

/-- The index of the first marker that a path holds; the number of markers if it holds none. Markers
must be texts. -/
def rank (markers : List Value) (path : List Point) : Except Failure Nat :=
  match markers with
  | [] => .ok 0
  | .raw marker :: rest => if Text.hasInfix marker.points path then .ok 0 else (rank rest path).map (· + 1)
  | marker :: _ => .error (.wrongType .marker marker)

/-- The files in the order of their ranks; files of the same rank keep their order. -/
def sortByPriority (files : List RawText) (markers : List Value) : Except Failure (List RawText) :=
  match files.mapM fun file => (rank markers file.forwardSlashes.points).map fun r => (r, file) with
  | .error failure => .error failure
  | .ok ranked => .ok ((ranked.mergeSort fun a b => decide (a.1 ≤ b.1)).map Prod.snd)

end FactoryIndex
