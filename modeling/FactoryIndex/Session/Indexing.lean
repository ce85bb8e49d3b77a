import FactoryIndex.Session.Basic

/-!
# Indexing a project

A pass lists the files of the project, puts them in the order of their priority, empties the store, reads
and parses the files, and files their definitions: of two definitions of the same name the one from the
file of higher priority stays. Only then the store counts as initialized.

At most one pass is under way. It is suspended while its files are read; a request that arrives meanwhile
is turned down, and the pass is followed by another one, which sees the newest state of things. A failure
is reported, with the offer to try again; if the files could not be listed or ordered, the store is as it
was before.
-/

namespace FactoryIndex.Session

def indexingFailed (failure : Failure) : Event :=
  { level := .error
    context := "session.initialize_failed"
    message := "Failed to initialize factory files"
    error := some failure
    userMessage := some "Failed to index factory files. Factory links are unavailable."
    retry := true }

def indexed (files : Nat) (stats : Stats) : Event :=
  { level := .debug
    context := "session.initialized"
    message := "Factory initialization completed: " ++ toString stats.factoryCount ++ " factories, " ++
      toString stats.traitCount ++ " traits"
    details := ("files", .int files) :: stats.fields }

/-- The rank of a file among the files of a pass: its last index there, or behind all of them. -/
def rankAmong (files : List RawText) (file : RawText) : Nat :=
  match files.reverse.idxOf? file with
  | some index => files.length - 1 - index
  | none => files.length

/-- Definitions in the order of the ranks of their files; those of one file keep their order. -/
def byRank {α : Type} (files : List RawText) (fileOf : α → RawText) (definitions : List α) : List α :=
  definitions.mergeSort fun a b => decide (rankAmong files (fileOf a) ≤ rankAmong files (fileOf b))

/-- Files the definitions of a pass, the first one of each name, up to the first failure. Time passes
meanwhile: `clock n` is what the clocks show when the definition with the number `n` is filed. -/
def fileOutline (clock : Nat → Clock) (files : List RawText) (outline : Outline) (store : Store) :
    Store × Except Failure Unit :=
  let factories := byRank files (fun factory => factory.location.file) outline.factories
  let traits := byRank files (fun t => t.location.file) outline.traits
  match Store.Timed.each (fun store (factory, n) => Store.Timed.addFactory (clock n) store factory) store
      factories.zipIdx with
  | (store, .error failure) => (store, .error failure)
  | (store, .ok ()) =>
    Store.Timed.each (fun store (t, n) => Store.Timed.addTrait (clock n) store t) store
      (traits.zipIdx factories.length)

theorem fileOutline_of_readable {clock : Nat → Clock} (hm : ∀ n, (clock n).measures = true)
    (hw : ∀ n, (clock n).tellsDay = true) (files : List RawText) (outline : Outline) (store : Store) :
    fileOutline clock files outline store =
      (((byRank files (fun t => t.location.file) outline.traits).zipIdx
          (byRank files (fun factory => factory.location.file) outline.factories).length).foldl
        (fun store (t, n) => Store.addTrait (clock n) store t)
        ((byRank files (fun factory => factory.location.file) outline.factories).zipIdx.foldl
          (fun store (factory, n) => Store.addFactory (clock n) store factory) store), .ok ()) := by
  have hfactories : ∀ (store : Store) (item : Factory × Nat),
      Store.Timed.addFactory (clock item.2) store item.1 =
        (Store.addFactory (clock item.2) store item.1,
          .ok (store.factory? (clock item.2) item.1.name).isNone) :=
    fun store item => Store.Timed.addFactory_of_readable (hm item.2) (hw item.2) store item.1
  have htraits : ∀ (store : Store) (item : Trait × Nat),
      Store.Timed.addTrait (clock item.2) store item.1 =
        (Store.addTrait (clock item.2) store item.1,
          .ok (store.trait? (clock item.2) item.1.factory item.1.name).isNone) :=
    fun store item => Store.Timed.addTrait_of_readable (hm item.2) (hw item.2) store item.1
  simp only [fileOutline, Store.Timed.each_of_ok hfactories, Store.Timed.each_of_ok htraits]

/-- Gives up the pass that is under way, and with it any further one that was asked for. -/
def failPass (failure : Failure) (session : Session) : Session :=
  { session with pass := none, rerun := false }.notify (indexingFailed failure)

/-- Ends the pass that is under way, its reads having completed in the given order. What was filed before
a failure stays, but does not count as an index. -/
def finishPass (clock : Nat → Clock) (pass : Pass) (completed : List FileRead) (session : Session) : Session :=
  let (outline, events) := Outline.ofCompleted pass.blockMode completed
  let session := session.notifyAll events
  match fileOutline clock pass.files outline session.store with
  | (store, .ok ()) =>
    let store := store.setInitialized true
    { session with store := store, pass := none }.notify (indexed pass.files.length store.stats)
  | (store, .error failure) => { session with store := store }.failPass failure

/-- The files that a pass would index, in the order of their priority. -/
def filesToIndex (source : Source) (settings : Settings) : Except Failure (List RawText) :=
  match source.list settings.factoryPaths with
  | .error failure => .error failure
  | .ok files => sortByPriority files settings.priorityOrder

/-- Starts a pass. If there is no file to wait for it ends at once. -/
def startPass (source : Source) (clock : Clock) (session : Session) : Session :=
  let session := { session with runs := session.runs + 1, rerun := false }
  match filesToIndex source session.settings with
  | .error failure => session.failPass failure
  | .ok files =>
    let pass : Pass := ⟨files, session.settings.batchSize, session.services.blockMode⟩
    let session := { session with store := session.store.clear, pass := some pass }
    if files.isEmpty then session.finishPass (fun _ => clock) pass [] else session

/-- A request to index. The answer is missing while the session waits for files. -/
def request (source : Source) (clock : Clock) (force : Bool) (session : Session) :
    Session × Option Bool :=
  if session.pass.isSome then ({ session with rerun := true }, some false)
  else if session.store.initialized && !force then (session, some true)
  else
    let session := session.startPass source clock
    (session, if session.pass.isSome then none else some session.store.initialized)

/-- The reads of the pass under way complete; if it was asked for, another pass follows. -/
def resume (source : Source) (clock : Clock) (session : Session) : Session :=
  match session.pass with
  | none => session
  | some pass =>
    let session := session.finishPass (fun _ => clock) pass
      (Outline.completed pass.batchSize (source.reads pass.files))
    if session.rerun then session.startPass source clock else session

/-- The session once all reads have completed. Nothing asks for a third pass meanwhile. -/
def settle (source : Source) (clock : Clock) (session : Session) : Session :=
  (session.resume source clock).resume source clock

/-- Indexes the project, unless that has been done and is not forced. The answer tells whether the store
is initialized in the end. -/
def index (source : Source) (clock : Clock) (force : Bool) (session : Session) : Session × Bool :=
  let (session, answer) := session.request source clock force
  match answer with
  | some answer => (session, answer)
  | none =>
    let session := session.settle source clock
    (session, session.store.initialized)

/-- Several requests to index that arrive one right after the other. -/
def requests (source : Source) (clock : Clock) : List Bool → Session → Session × List (Option Bool)
  | [], session => (session, [])
  | force :: rest, session =>
    let (session, answer) := session.request source clock force
    let (session, answers) := requests source clock rest session
    (session, answer :: answers)

/-- Several requests to index that arrive one right after the other, and their answers. -/
def overlap (source : Source) (clock : Clock) (forces : List Bool) (session : Session) :
    Session × List Bool :=
  let (session, answers) := session.requests source clock forces
  let session := session.settle source clock
  (session, answers.map fun answer => answer.getD session.store.initialized)

end FactoryIndex.Session
