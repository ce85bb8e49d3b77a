import FactoryIndex.Session.Indexing

/-!
# Working with a session

What a session does besides indexing: following the changes of files, resolving texts, finding factories,
and taking on other settings. The definitions of a changed file replace all that came from it before, so
that the latest change wins. The index knows a file by the name that was given for it, even if that is not
the one it is listed under.
-/

namespace FactoryIndex.Session

/-! ### Changes of files -/

/-- The event of a file that is gone before it could be indexed anew. -/
def fileVanished (file : Value) (failure : Failure) : Event :=
  { level := .warning
    context := "session.stat_failed"
    message := "File vanished before reindex: " ++ file.shown
    error := some failure
    details := [("file", file)] }

def fileReindexed (file : RawText) (outline : Outline) : Event :=
  { level := .debug
    context := "session.file_reindexed"
    message := "Factory file changed: " ++ file
    details := [
      ("file", .raw file), ("factories", .int outline.factories.length),
      ("traits", .int outline.traits.length)] }

/-- Removes all that comes from a file. A value that is no text names no file; a list or an object
cannot even be looked up. -/
def removeFile (file : Value) (session : Session) : Session × Except Failure Unit :=
  match file with
  | .raw name =>
    ({ session with store := session.store.removeFile name }.record
      (session.store.removalRecords name), .ok ())
  | .list _ | .object _ => (session, .error (.wrongType .key file))
  | _ => (session, .ok ())

/-- Replaces what came from a file by the outline of its text, which has now been read. -/
def reindex (clock : Clock) (file : RawText) (modified : Int) (read : FileRead) (session : Session) :
    Session × Except Failure Unit :=
  match Outline.ofRead session.services.blockMode read with
  | .error failure => (session, .error failure)
  | .ok (outline, events) =>
    let session := session.notifyAll events
    let records := session.store.removalRecords file
    let (store, outcome) := Store.Timed.replaceFile clock session.store file outline.factories
      outline.traits (some modified)
    let session := { session with store := store }.record records
    match outcome with
    | .error failure => (session, .error failure)
    | .ok () => (session.notify (fileReindexed file outline), .ok ())

/-- Where the handling of a change stands once the file has been looked at: either there is nothing left
to do, or the file, which was modified at the given time, has to be read. -/
inductive ChangeProgress where
  | settled (reindexed : Bool)
  | reading (file : RawText) (modified : Int)
  deriving Repr, DecidableEq

/-- Handles a change up to the point where the file has to be read. A file that is gone is removed. -/
def startChange (source : Source) (file kind : Value) (session : Session) :
    Session × Except Failure ChangeProgress :=
  match ChangeKind.ofValue kind with
  | .error failure => (session, .error failure)
  | .ok .deleted =>
    let (session, outcome) := session.removeFile file
    (session, outcome.map fun _ => .settled true)
  | .ok _ =>
    match source.modified file with
    | .error failure =>
      if failure.kind.isSystem then
        let (session, outcome) := (session.notify (fileVanished file failure)).removeFile file
        (session, outcome.map fun _ => .settled false)
      else (session, .error failure)
    | .ok modified =>
      match file with
      | .raw name =>
        (session, .ok (if session.store.shouldReindex name modified then .reading name modified
          else .settled false))
      | _ => (session, .error (.wrongType .part file))

/-- Brings what comes from a file up to date. The answer tells whether that was needed. -/
def handleChange (source : Source) (clock : Clock) (file kind : Value) (session : Session) :
    Session × Except Failure Bool :=
  match session.startChange source file kind with
  | (session, .error failure) => (session, .error failure)
  | (session, .ok (.settled reindexed)) => (session, .ok reindexed)
  | (session, .ok (.reading name modified)) =>
    let (session, outcome) := session.reindex clock name modified
      ⟨name, source.delay name, source.read name⟩
    (session, outcome.map fun _ => true)

/-! ### Watching -/

/-- The times at which the files were last modified; files for which that cannot be told are left out,
which is logged. -/
def snapshot (source : Source) (files : List RawText) : OrderedMap RawText Int × List LogRecord :=
  files.foldl
    (fun (times, records) file =>
      match source.modified (.raw file) with
      | .ok time => (times.insert file time, records)
      | .error failure =>
        (times, records ++ [⟨.debug, .workspace, "workspace.stat_failed", [
          ("file", .raw file), ("error_type", .text failure.kind.name)]⟩]))
    (.empty, [])

def takeSnapshot (source : Source) (session : Session) : Except Failure (Session × OrderedMap RawText Int) :=
  (source.list session.watch.patterns).map fun files =>
    let (times, records) := snapshot source files
    (session.record records, times)

/-- Compares the files with a new snapshot from now on. -/
def restartWatch (source : Source) (session : Session) : Session × Except Failure Unit :=
  if source.tracksChanges then
    match session.takeSnapshot source with
    | .error failure => (session, .error failure)
    | .ok (session, times) => ({ session with watch := { session.watch with snapshot := times } }, .ok ())
  else (session, .ok ())

/-- Adds a listener. The first one starts the watch. -/
def listen (source : Source) (listener : Listener) (session : Session) : Session × Except Failure Unit :=
  let (session, outcome) :=
    if session.watch.listeners.isEmpty then session.restartWatch source else (session, .ok ())
  match outcome with
  | .error failure => (session, .error failure)
  | .ok () =>
    ({ session with watch := { session.watch with listeners := session.watch.listeners ++ [listener] } },
      .ok ())

/-- The changes between two snapshots: what is new or modified later, then what is gone. -/
def changes (old new : OrderedMap RawText Int) : List (RawText × ChangeKind) :=
  (new.entries.filterMap fun (file, time) =>
    match old.get? file with
    | none => some (file, .created)
    | some previous => if previous < time then some (file, .changed) else none) ++
  (old.keys.filter fun file => !new.contains file).map fun file => (file, .deleted)

def tell (source : Source) (clock : Clock) (change : RawText × ChangeKind) (listener : Listener)
    (session : Session) : Session × Except Failure Unit :=
  match listener with
  | .notes => ({ session with notes := session.notes ++ [change] }, .ok ())
  | .session =>
    let (session, outcome) := session.handleChange source clock (.raw change.1) (.text change.2.name)
    (session, outcome.map fun _ => ())

/-- Tells about changes one by one, up to the first failure. -/
def tellAll (source : Source) (clock : Clock) :
    List ((RawText × ChangeKind) × Listener) → Session → Session × Except Failure Unit
  | [], session => (session, .ok ())
  | (change, listener) :: rest, session =>
    match session.tell source clock change listener with
    | (session, .ok ()) => tellAll source clock rest session
    | (session, .error failure) => (session, .error failure)

/-- Finds out what has changed since the last snapshot and tells the listeners. -/
def poll (source : Source) (clock : Clock) (session : Session) :
    Session × Except Failure (List (RawText × ChangeKind)) :=
  if source.tracksChanges then
    match session.takeSnapshot source with
    | .error failure => (session, .error failure)
    | .ok (session, times) =>
      let found := changes session.watch.snapshot times
      let session := { session with watch := { session.watch with snapshot := times } }
      let calls := found.flatMap fun change =>
        session.watch.listeners.map fun listener => (change, listener)
      let (session, outcome) := session.tellAll source clock calls
      (session, outcome.map fun _ => found)
  else (session, .error (.missingMember "FileSource" "poll_changes"))

/-! ### Asking -/

def resolveFailed (failure : Failure) : Event :=
  failedOperation .error "session.resolve_failed" failure []

/-- Resolves a value that should be a text. Without a complete index nothing is resolved; neither is a
value that is empty. Any other value is reported. A half that stands alone is, like the replacement
character, neither blank nor part of a word, so that the text is read as it is shown. -/
def resolve (clock : Clock) (value : Value) (session : Session) : Session × List Reference :=
  if session.store.initialized then
    match value, value.truthy with
    | .raw text, _ =>
      match Store.Timed.resolve clock session.store (session.services.methods.map .text)
          text.shown.toList with
      | .ok resolution =>
        ({ session with store := resolution.store }.notifyAll resolution.event.toList,
          resolution.references)
      | .error failure => (session.notify (resolveFailed failure), [])
    | _, true => (session.notify (resolveFailed (.wrongType .searched value)), [])
    | _, false => (session, [])
  else (session, [])

def find (clock : Clock) (name : String) (session : Session) :
    Session × Except Failure (Option Factory) :=
  let (store, outcome) := Store.Timed.findFactory clock session.store name
  ({ session with store := store }, outcome)

/-- Removes expired definitions and counts them. -/
def cleanup (clock : Clock) (session : Session) : Session × Except Failure Nat :=
  let (store, outcome) := Store.Timed.cleanup clock session.store
  let records := match outcome with
    | .ok _ => session.store.cleanupRecords clock
    | .error _ => []
  ({ session with store := store }.record records, outcome)

/-! ### Other settings -/

/-- Watches other files; a watch that is active starts over. -/
def watchPatterns (source : Source) (patterns : List RawText) (session : Session) :
    Session × Except Failure Unit :=
  let session := { session with watch := { session.watch with patterns := patterns } }
  if session.watch.listeners.isEmpty then (session, .ok ()) else session.restartWatch source

/-- Takes on other settings up to the point where indexing starts. What was done before a failure
stays done. -/
def adopt (source : Source) (settings : Settings) (session : Session) : Session × Except Failure Unit :=
  let notifier := if session.notifier.writesLog then { session.notifier with debug := settings.debug }
    else session.notifier
  let (store, outcome) := session.store.setTtl (.int settings.cacheTimeoutMs)
  let session := { session with settings := settings, notifier := notifier, store := store }
  match outcome with
  | .error failure => (session, .error failure)
  | .ok () =>
    match session.watchPatterns source settings.factoryPaths with
    | (session, .error failure) => (session, .error failure)
    | (session, .ok ()) =>
      ({ session with
          services := .ofSettings settings
          store := session.store.setInitialized false }, .ok ())

/-- Takes on other settings and indexes the project anew. -/
def applySettings (source : Source) (clock : Clock) (settings : Settings) (session : Session) :
    Session × Except Failure Bool :=
  match session.adopt source settings with
  | (session, .error failure) => (session, .error failure)
  | (session, .ok ()) =>
    let (session, answer) := session.index source clock true
    (session, .ok answer)

/-- Tries again what the newest event with such an offer has reported. -/
def retry (source : Source) (clock : Clock) (session : Session) : Session × Option Bool :=
  if session.events.any Event.retry then
    let (session, answer) := session.index source clock true
    (session, some answer)
  else (session, none)

end FactoryIndex.Session
