import FactoryIndex.Outline.Batch
import FactoryIndex.Resolver
import FactoryIndex.Settings
import FactoryIndex.Workspace.Folder

/-!
# Sessions

A session serves one project. It owns the store, and the services that work on it: how texts are parsed,
and which methods are looked for. The files are not part of it: what a file source answers at the moment
is handed to each operation that needs it, as is the time.

Indexing a project may be suspended while files are read. A pass that is waiting for its files is part of
the session, so that everything that happens in the meantime can see it; a request to index that arrives
then makes the session start over once the pass has ended.
-/

namespace FactoryIndex

/-- What a source of files answers at one moment. -/
structure Source where
  /-- The files that globs select. -/
  list : List RawText → Except Failure (List RawText)
  /-- When a file was last modified. -/
  modified : Value → Except Failure Int
  /-- The text of a file. -/
  read : RawText → Except Failure (List Char)
  /-- How many turns a read takes. -/
  delay : RawText → Nat := fun _ => 0
  /-- Whether changes of the files can be found out by polling. -/
  tracksChanges : Bool := true

def Source.reads (source : Source) (files : List RawText) : List FileRead :=
  files.map fun file => ⟨file, source.delay file, source.read file⟩

/-- The settings that the services of a session were built with. -/
structure Services where
  blockMode : BlockMode
  batchSize : Nat
  methods : List String
  deriving Repr, DecidableEq

def Services.ofSettings (settings : Settings) : Services :=
  ⟨settings.blockMode, settings.batchSize, settings.factoryMethods⟩

/-- An indexing pass that is waiting for its files: the files in the order of their priority, how many
are read at the same time, and how they are parsed. -/
structure Pass where
  files : List RawText
  batchSize : Nat
  blockMode : BlockMode
  deriving Repr, DecidableEq

inductive ChangeKind where
  | created
  | changed
  | deleted
  deriving Repr, DecidableEq

def ChangeKind.name : ChangeKind → String
  | created => "created"
  | changed => "changed"
  | deleted => "deleted"

def ChangeKind.ofValue (value : Value) : Except Failure ChangeKind :=
  match value with
  | .text "created" => .ok created
  | .text "changed" => .ok changed
  | .text "deleted" => .ok deleted
  | _ => .error (.unknownChange value)

/-- Who is told about the changes that polling finds: the session itself, or somebody who takes notes. -/
inductive Listener where
  | session
  | notes
  deriving Repr, DecidableEq

/-- The watch over the files of a source: what is watched, when each file was last modified, and who is
told about changes. -/
structure Watch where
  patterns : List RawText := []
  snapshot : OrderedMap RawText Int := .empty
  listeners : List Listener := []

/-- The state of a session. `events` and `log` grow by what is reported. -/
structure Session where
  settings : Settings
  services : Services
  notifier : Notifier
  store : Store
  watch : Watch
  pass : Option Pass := none
  rerun : Bool := false
  runs : Nat := 0
  notes : List (RawText × ChangeKind) := []
  events : List Event := []
  log : List LogRecord := []

namespace Session

/-- A new session. It fails if the life of definitions is out of range. -/
def create (settings : Settings) (notifier : Notifier) (patterns : List RawText) :
    Except Failure Session :=
  (Store.create (.int settings.cacheTimeoutMs)).map fun store =>
    { settings := settings
      services := .ofSettings settings
      notifier := notifier
      store := store
      watch := { patterns := patterns } }

def notify (session : Session) (event : Event) : Session :=
  { session with
      events := session.events ++ [event]
      log := session.log ++ session.notifier.records .session event }

def notifyAll (session : Session) (events : List Event) : Session := events.foldl notify session

def record (session : Session) (records : List LogRecord) : Session :=
  { session with log := session.log ++ records }

end Session

end FactoryIndex
