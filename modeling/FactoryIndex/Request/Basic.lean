import FactoryIndex.Session.Operation

/-!
# Requests

A request names a command, a project and arguments, each of them a value of any shape. What a request can
see of the world is handed to it as its *surroundings*: the files, the time and the environment at the
moment it is answered. The project is a folder; the files of its session are those below it.

Arguments are only looked at when a command needs them, so which failure a bad request meets depends on
what the command does first.
-/

namespace FactoryIndex

/-- The files, the time and the environment in which a request is answered. -/
structure Surroundings where
  tree : Tree
  clock : Clock
  environment : OrderedMap RawText RawText := .empty

/-- The files below a folder as a source. Only a text can name a file. -/
def Tree.source (tree : Tree) (folder : Path) : Source where
  list := tree.list folder
  modified
    | .raw file => tree.modified (folder.join (.ofText file))
    | file => .error (.wrongType .part file)
  read file := tree.read (folder.join (.ofText file))

def Surroundings.source (here : Surroundings) (project : RawText) : Source :=
  here.tree.source (.ofText project)

/-- The commands that work with the session of a project. -/
inductive SessionCommand where
  | index
  | resolve
  | changed
  | poll
  | stats
  deriving Repr, DecidableEq

/-- All commands. Extracting the definitions of a single file needs no session. -/
inductive Command where
  | extract
  | onSession (command : SessionCommand)
  deriving Repr, DecidableEq

def Command.ofValue? : Value → Option Command
  | .text "extract" => some .extract
  | .text "index" => some (.onSession .index)
  | .text "resolve" => some (.onSession .resolve)
  | .text "changed" => some (.onSession .changed)
  | .text "poll" => some (.onSession .poll)
  | .text "stats" => some (.onSession .stats)
  | _ => none

def argument (args : Value) (name : String) (default : Value) : Except Failure Value :=
  match args with
  | .object fields => .ok ((Value.lookup? fields name).getD default)
  | _ => .error (.missingMember args.typeName "get")

/-- The path of a file of a project. The project does not matter if the path is absolute. -/
def pathInProject (project file : Value) : Except Failure Path :=
  match file with
  | .raw file =>
    let path := Path.ofText file
    if path.root.isEmpty then
      match project with
      | .raw project => .ok ((Path.ofText project).join path)
      | _ => .error (.wrongType .path project)
    else .ok path
  | _ => .error (.wrongType .path file)

end FactoryIndex
