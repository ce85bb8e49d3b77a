import FactoryIndex.Proofs.Session.Ranking
import FactoryIndex.Proofs.Store.FirstWins
import FactoryIndex.Proofs.Workspace.Priority

/-!
# What a pass leaves in the store

A pass reads its files in groups, in whatever order the reads of a group complete, and time passes while it
files what it has found. None of that shows in the result. `Passes` is the relation between a session and what
a pass may turn it into. Whichever way a pass goes, the store then holds of each name the first definition of
the first file that defines it.
-/

namespace FactoryIndex

/-- What a file of a source defines. A file that cannot be read defines nothing. -/
def Source.outline (source : Source) (mode : BlockMode) (file : RawText) : Outline :=
  match source.read file with
  | .ok text => Outline.parse mode text file
  | .error _ => {}

/-- A source lists every file once, in the order of their names. -/
def Source.ListsInOrder (source : Source) : Prop :=
  ∀ globs listed, source.list globs = .ok listed → listed.Pairwise (· < ·)

namespace Session

/-- A whole pass whose reads complete in the given order. -/
def passOnce (source : Source) (clock : Nat → Clock) (completed : List FileRead) (session : Session) :
    Session :=
  let session := session.startPass source (clock 0)
  match session.pass with
  | some pass => session.finishPass clock pass completed
  | none => session

/-- A pass over the files of a source may turn one session into another: the files can be listed and put in
order, the reads of each group complete in some order, and nothing expires between the moments at which
definitions are filed. -/
def Passes (source : Source) (moments : Nat → Moment) (session after : Session) : Prop :=
  session.store.Outlives moments ∧
    ∃ files completed, filesToIndex source session.settings = .ok files ∧
      Outline.Completes session.settings.batchSize (source.reads files) completed ∧
      after = session.passOnce source (fun n => (moments n).clock) completed

/-! ### The end of a pass -/

/-- Reporting events changes nothing that reporting one event does not change. -/
theorem view_notifyAll {β : Type} {view : Session → β}
    (hview : ∀ session event, view (session.notify event) = view session) (session : Session)
    (events : List Event) : view (session.notifyAll events) = view session :=
  OrderedMap.view_foldl view hview events session

theorem store_notifyAll (session : Session) (events : List Event) :
    (session.notifyAll events).store = session.store := view_notifyAll (fun _ _ => rfl) session events

theorem notifyAll_eq (session : Session) (events : List Event) :
    session.notifyAll events = { session with
      events := session.events ++ events
      log := session.log ++ events.flatMap (session.notifier.records .session) } := by
  induction events generalizing session with
  | nil => simp only [notifyAll, List.foldl_nil, List.append_nil, List.flatMap_nil]
  | cons event rest ih =>
      refine (ih (session.notify event)).trans ?_
      simp only [notify, List.append_assoc, List.singleton_append, List.flatMap_cons]

/-- The end of a pass changes the store, takes the pass away and reports. The rest of the session stays. -/
theorem finishPass_eq (clock : Nat → Clock) (pass : Pass) (completed : List FileRead) (session : Session) :
    ∃ store rerun events log, session.finishPass clock pass completed =
      { session with store := store, pass := none, rerun := rerun, events := events, log := log } := by
  simp only [finishPass, notifyAll_eq]
  split
  · exact ⟨_, _, _, _, rfl⟩
  · exact ⟨_, _, _, _, rfl⟩

theorem watch_finishPass (clock : Nat → Clock) (pass : Pass) (completed : List FileRead) (session : Session) :
    (session.finishPass clock pass completed).watch = session.watch := by
  obtain ⟨_, _, _, _, heq⟩ := finishPass_eq clock pass completed session
  rw [heq]

theorem runs_finishPass (clock : Nat → Clock) (pass : Pass) (completed : List FileRead) (session : Session) :
    (session.finishPass clock pass completed).runs = session.runs := by
  obtain ⟨_, _, _, _, heq⟩ := finishPass_eq clock pass completed session
  rw [heq]

theorem services_finishPass (clock : Nat → Clock) (pass : Pass) (completed : List FileRead) (session : Session) :
    (session.finishPass clock pass completed).services = session.services := by
  obtain ⟨_, _, _, _, heq⟩ := finishPass_eq clock pass completed session
  rw [heq]

theorem finishPass_of_readable (moments : Nat → Moment) (pass : Pass) (completed : List FileRead)
    (session : Session) :
    (session.finishPass (fun n => (moments n).clock) pass completed).pass = none ∧
      (session.finishPass (fun n => (moments n).clock) pass completed).store =
        (session.store.fill (fun n => (moments n).clock)
          (byRank pass.files (fun factory => factory.location.file)
            (Outline.ofCompleted pass.blockMode completed).1.factories)
          (byRank pass.files (fun t => t.location.file)
            (Outline.ofCompleted pass.blockMode completed).1.traits)).setInitialized true := by
  unfold finishPass
  simp only
  rw [fileOutline_of_readable (fun n => (moments n).measures) (fun n => (moments n).tellsDay), store_notifyAll]
  exact ⟨rfl, rfl⟩

theorem passOnce_of_ok {source : Source} {session : Session} {files : List RawText}
    (hfiles : filesToIndex source session.settings = .ok files) {completed : List FileRead}
    (hcompleted : completed.Perm (source.reads files)) (moments : Nat → Moment) :
    (session.passOnce source (fun n => (moments n).clock) completed).pass = none ∧
      (session.passOnce source (fun n => (moments n).clock) completed).store =
        (session.store.clear.fill (fun n => (moments n).clock)
          (byRank files (fun factory => factory.location.file)
            (Outline.ofCompleted session.services.blockMode completed).1.factories)
          (byRank files (fun t => t.location.file)
            (Outline.ofCompleted session.services.blockMode completed).1.traits)).setInitialized true := by
  unfold passOnce startPass
  simp only [hfiles]
  cases files with
  | nil =>
      -- There is nothing to wait for, so the pass ends as soon as it starts.
      obtain rfl : completed = [] := hcompleted.eq_nil
      have hfinish := finishPass_of_readable (fun _ => moments 0)
        ⟨[], session.settings.batchSize, session.services.blockMode⟩ []
        { session with
            runs := session.runs + 1
            rerun := false
            store := session.store.clear
            pass := some ⟨[], session.settings.batchSize, session.services.blockMode⟩ }
      simp only [List.isEmpty_nil, if_true]
      rw [hfinish.1]
      refine ⟨hfinish.1, hfinish.2.trans ?_⟩
      simp only [Outline.ofCompleted, byRank, List.mergeSort_nil, Store.fill, List.zipIdx_nil, List.foldl_nil]
  | cons file rest => exact finishPass_of_readable moments _ completed _

theorem filesToIndex_eq_ok {source : Source} {settings : Settings} {files : List RawText}
    (hfiles : filesToIndex source settings = .ok files) :
    ∃ listed, source.list settings.factoryPaths = .ok listed ∧
      sortByPriority listed settings.priorityOrder = .ok files := by
  unfold filesToIndex at hfiles
  split at hfiles
  · cases hfiles
  · next listed hlisted => exact ⟨listed, hlisted, hfiles⟩

/-! ### Indexing is a pass -/

/-- A pass that fails at its end takes a further one that was asked for with it. -/
theorem rerun_finishPass_eq (clock : Nat → Clock) (pass : Pass) (completed : List FileRead) (session : Session) :
    (session.finishPass clock pass completed).rerun = (session.rerun &&
      (fileOutline clock pass.files (Outline.ofCompleted pass.blockMode completed).1 session.store).2.isOk) := by
  simp only [finishPass, notifyAll_eq]
  split
  · next hfiled => simp only [notify, hfiled, Except.isOk, Except.toBool, Bool.and_true]
  · next hfiled => simp only [failPass, notify, hfiled, Except.isOk, Except.toBool, Bool.and_false]

theorem rerun_finishPass (moments : Nat → Moment) (pass : Pass) (completed : List FileRead)
    (session : Session) :
    (session.finishPass (fun n => (moments n).clock) pass completed).rerun = session.rerun := by
  rw [rerun_finishPass_eq, fileOutline_of_readable (fun n => (moments n).measures) (fun n => (moments n).tellsDay)]
  exact Bool.and_true _

theorem pass_startPass {source : Source} {session : Session} {files : List RawText}
    (hfiles : filesToIndex source session.settings = .ok files) (moment : Moment) {pass : Pass}
    (hpass : (session.startPass source moment.clock).pass = some pass) :
    pass = ⟨files, session.settings.batchSize, session.services.blockMode⟩ ∧
      (session.startPass source moment.clock).rerun = false := by
  unfold startPass at hpass ⊢
  simp only [hfiles] at hpass ⊢
  split at hpass
  · rw [(finishPass_of_readable (fun _ => moment) _ _ _).1] at hpass
    cases hpass
  · next hnonempty =>
    rw [if_neg hnonempty]
    exact ⟨(Option.some.inj hpass).symm, rfl⟩

/-- Indexing a project is a pass in which the reads complete in the order of their turns. -/
theorem passes_index {source : Source} {session : Session} {files : List RawText}
    (hfiles : filesToIndex source session.settings = .ok files) (hnone : session.pass = none) (moment : Moment)
    (houtlives : session.store.Outlives fun _ => moment) :
    Passes source (fun _ => moment) session (session.index source moment.clock true).1 := by
  refine ⟨houtlives, files, Outline.completed session.settings.batchSize (source.reads files), hfiles,
    Outline.completes_completed _ _, ?_⟩
  simp only [index, request, hnone, Option.isSome_none, Bool.false_eq_true, if_false, Bool.not_true,
    Bool.and_false, passOnce]
  cases hpass : (session.startPass source moment.clock).pass with
  | none => rfl
  | some pass =>
      obtain ⟨rfl, hrerun⟩ := pass_startPass hfiles moment hpass
      simp only [Option.isSome_some, if_true, settle]
      have hresume : (session.startPass source moment.clock).resume source moment.clock =
          (session.startPass source moment.clock).finishPass (fun _ => moment.clock)
            ⟨files, session.settings.batchSize, session.services.blockMode⟩
            (Outline.completed session.settings.batchSize (source.reads files)) := by
        simp only [resume, hpass]
        rw [rerun_finishPass (fun _ => moment), hrerun]
        rfl
      rw [hresume, resume, (finishPass_of_readable (fun _ => moment) _ _ _).1]

/-! ### The definitions that are filed -/

theorem outline_isolated_read (source : Source) (mode : BlockMode) (file : RawText) :
    (Outline.isolated mode ⟨file, source.delay file, source.read file⟩).1 =
      source.outline mode file := by
  rw [Outline.outline_isolated]
  rfl

theorem nodup_of_sortByPriority {listed sorted : List RawText} {markers : List Value}
    (hlisted : listed.Pairwise (· < ·)) (hsorted : sortByPriority listed markers = .ok sorted) :
    sorted.Nodup := by
  have hnodup : listed.Nodup := hlisted.imp fun hlt => ne_of_lt hlt
  exact (perm_of_sortByPriority hsorted).nodup_iff.2 hnodup

theorem Passes.store_eq {source : Source} {moments : Nat → Moment} {session after : Session}
    {listed : List RawText} (hpass : Passes source moments session after) (hsource : source.ListsInOrder)
    (hlisted : source.list session.settings.factoryPaths = .ok listed) :
    ∃ files, sortByPriority listed session.settings.priorityOrder = .ok files ∧ after.pass = none ∧
      after.store = (session.store.clear.fill (fun n => (moments n).clock)
        (files.flatMap fun file => (source.outline session.services.blockMode file).factories)
        (files.flatMap fun file => (source.outline session.services.blockMode file).traits)).setInitialized true := by
  obtain ⟨-, files, completed, hfiles, hcompletes, rfl⟩ := hpass
  have hperm := hcompletes.perm
  obtain ⟨hnone, hstore⟩ := passOnce_of_ok hfiles hperm moments
  obtain ⟨listed', hlisted', hsorted⟩ := filesToIndex_eq_ok hfiles
  obtain rfl : listed = listed' := Except.ok.inj (hlisted.symm.trans hlisted')
  refine ⟨files, hsorted, hnone, ?_⟩
  have hnodup := nodup_of_sortByPriority (hsource _ _ hlisted) hsorted
  have hreads : (source.reads files).map FileRead.file = files := by
    rw [Source.reads, List.map_map]
    exact List.map_id _
  have hfactories : byRank files (fun factory => factory.location.file)
      (Outline.ofCompleted session.services.blockMode completed).1.factories =
        files.flatMap fun file => (source.outline session.services.blockMode file).factories := by
    rw [Outline.factories_ofCompleted,
      byRank_flatMap (fun read _ hmem => Outline.file_of_mem_factories_isolated hmem) hnodup hreads hperm,
      Source.reads, List.flatMap_map]
    simp only [outline_isolated_read]
  have htraits : byRank files (fun t => t.location.file)
      (Outline.ofCompleted session.services.blockMode completed).1.traits =
        files.flatMap fun file => (source.outline session.services.blockMode file).traits := by
    rw [Outline.traits_ofCompleted,
      byRank_flatMap (fun read _ hmem => Outline.file_of_mem_traits_isolated hmem) hnodup hreads hperm,
      Source.reads, List.flatMap_map]
    simp only [outline_isolated_read]
  rw [hstore, hfactories, htraits]

/-! ### Which definition wins -/

/-- A definition wins its key: it is the first one of the key in its file, and its file comes before all other
listed files that define the key. -/
def Wins {α : Type} (markers : List Value) (listed : List RawText) (definitions : RawText → List α)
    (keyOf : α → String) (key : String) (value : α) : Prop :=
  ∃ file ∈ listed, (definitions file).find? (fun other => keyOf other = key) = some value ∧
    ∀ other ∈ listed, other ≠ file → (∃ rival ∈ definitions other, keyOf rival = key) →
      Precedes markers file other

section Wins

variable {α : Type} {markers : List Value} {listed files : List RawText} {definitions : RawText → List α}
  {keyOf : α → String}

/-- In files that are in order, the first definition of a key is the one that wins it. -/
theorem find?_flatMap_eq_some_iff (hperm : files.Perm listed) (hfiles : files.Pairwise (Precedes markers))
    (key : String) (value : α) :
    (files.flatMap definitions).find? (fun other => keyOf other = key) = some value ↔
      Wins markers listed definitions keyOf key value := by
  rw [List.find?_flatMap, List.findSome?_eq_some_iff]
  constructor
  · rintro ⟨earlier, file, later, rfl, hfile, hearlier⟩
    refine ⟨file, hperm.mem_iff.1 (by simp), hfile, fun other hother hne ⟨rival, hrival, hkey⟩ => ?_⟩
    obtain hbefore | hafter := List.mem_append.1 (hperm.mem_iff.2 hother)
    · have hnone := List.find?_eq_none.1 (hearlier other hbefore) rival hrival
      exact absurd (decide_eq_true hkey) hnone
    · obtain rfl | hafter := List.mem_cons.1 hafter
      · exact absurd rfl hne
      · exact (List.pairwise_cons.1 (List.pairwise_append.1 hfiles).2.1).1 other hafter
  · rintro ⟨file, hfile, hvalue, hleast⟩
    obtain ⟨earlier, later, rfl⟩ := List.append_of_mem (hperm.mem_iff.2 hfile)
    refine ⟨earlier, file, later, rfl, hvalue, fun other hother => List.find?_eq_none.2 fun rival hrival => ?_⟩
    intro hkey
    have hbefore : Precedes markers other file :=
      (List.pairwise_append.1 hfiles).2.2 other hother file List.mem_cons_self
    have hne : other ≠ file := by
      rintro rfl
      exact hbefore.not_precedes hbefore
    refine hbefore.not_precedes (hleast other (hperm.mem_iff.1 (by simp [hother])) hne ?_)
    exact ⟨rival, hrival, of_decide_eq_true hkey⟩

theorem isSome_find?_flatMap_iff (hperm : files.Perm listed) (key : String) :
    ((files.flatMap definitions).find? fun other => keyOf other = key).isSome = true ↔
      ∃ file ∈ listed, ∃ value ∈ definitions file, keyOf value = key := by
  simp only [List.find?_isSome, List.mem_flatMap, decide_eq_true_eq]
  constructor
  · rintro ⟨value, ⟨file, hfile, hvalue⟩, hkey⟩
    exact ⟨file, hperm.mem_iff.1 hfile, value, hvalue, hkey⟩
  · rintro ⟨file, hfile, value, hvalue, hkey⟩
    exact ⟨value, ⟨file, hperm.mem_iff.2 hfile, hvalue⟩, hkey⟩

end Wins

/-- A session holds an index of files: of each key the first definition, in the order of the files, noted for
the file it comes from. -/
structure Holds (outlineOf : RawText → Outline) (files : List RawText) (session : Session) : Prop where
  pass_eq_none : session.pass = none
  initialized : session.store.initialized = true
  factories : session.store.factories.items =
    (firsts Factory.name (files.flatMap fun file => (outlineOf file).factories)).map
      fun factory => (factory.name, factory)
  traits : session.store.traits.items =
    (firsts Trait.key (files.flatMap fun file => (outlineOf file).traits)).map fun t => (t.key, t)
  attributed : session.store.Attributed

theorem Passes.holds {source : Source} {moments : Nat → Moment} {session after : Session}
    {listed : List RawText} (hpass : Passes source moments session after) (hsource : source.ListsInOrder)
    (hlisted : source.list session.settings.factoryPaths = .ok listed) :
    ∃ files, sortByPriority listed session.settings.priorityOrder = .ok files ∧
      Holds (source.outline session.services.blockMode) files after := by
  obtain ⟨files, hsorted, hnone, hstore⟩ := hpass.store_eq hsource hlisted
  have houtlives := hpass.1
  refine ⟨files, hsorted, hnone, ?_, ?_, ?_, ?_⟩
  · rw [hstore]
    rfl
  · rw [hstore]
    exact Store.items_factories_fill houtlives _ _
  · rw [hstore]
    exact Store.items_traits_fill houtlives _ _
  · rw [hstore]
    exact (Store.Attributed.fill _ _ _ (Store.Attributed.clear _)).setInitialized true

theorem Holds.sameIndex {outlineOf : RawText → Outline} {files : List RawText} {a b : Session}
    (ha : Holds outlineOf files a) (hb : Holds outlineOf files b) : a.store.SameIndex b.store :=
  .of_items ha.attributed hb.attributed (ha.factories.trans hb.factories.symm) (ha.traits.trans hb.traits.symm)

def withBatchSize (size : Nat) (session : Session) : Session :=
  { session with settings := { session.settings with batchSize := size } }

/-- **A pass is canonical.** Whatever the size of the groups, the order in which reads complete and the times at
which definitions are filed, a pass ends with the same definitions in the same order and notes them for the
same files. A key is stored if some file that can be read defines it, and the definition that wins it is the
one that is stored. -/
theorem pass_canonical {source : Source} {moments : Nat → Moment} {session after : Session}
    {listed : List RawText} (hpass : Passes source moments session after) (hsource : source.ListsInOrder)
    (hlisted : source.list session.settings.factoryPaths = .ok listed) :
    (after.pass = none ∧ after.store.initialized = true) ∧
      (∀ name, after.store.factories.contains name = true ↔
        ∃ file ∈ listed, ∃ factory ∈ (source.outline session.services.blockMode file).factories,
          factory.name = name) ∧
      (∀ name factory, after.store.factories.peek? name = some factory ↔
        Wins session.settings.priorityOrder listed
          (fun file => (source.outline session.services.blockMode file).factories) Factory.name name factory) ∧
      (∀ key, after.store.traits.contains key = true ↔
        ∃ file ∈ listed, ∃ t ∈ (source.outline session.services.blockMode file).traits, t.key = key) ∧
      (∀ key t, after.store.traits.peek? key = some t ↔
        Wins session.settings.priorityOrder listed
          (fun file => (source.outline session.services.blockMode file).traits) Trait.key key t) ∧
      ∀ size moments' other, Passes source moments' (session.withBatchSize size) other →
        after.store.SameIndex other.store := by
  obtain ⟨files, hsorted, hholds⟩ := hpass.holds hsource hlisted
  have hperm := perm_of_sortByPriority hsorted
  have hfiles := pairwise_precedes_of_sortByPriority (hsource _ _ hlisted) hsorted
  refine ⟨⟨hholds.pass_eq_none, hholds.initialized⟩, fun name => ?_, fun name factory => ?_, fun key => ?_,
    fun key t => ?_, fun size moments' other hother => ?_⟩
  · rw [ExpiringMap.contains_eq_isSome, ExpiringMap.peek?_of_items_eq_firsts hholds.factories]
    exact isSome_find?_flatMap_iff hperm name
  · rw [ExpiringMap.peek?_of_items_eq_firsts hholds.factories]
    exact find?_flatMap_eq_some_iff hperm hfiles name factory
  · rw [ExpiringMap.contains_eq_isSome, ExpiringMap.peek?_of_items_eq_firsts hholds.traits]
    exact isSome_find?_flatMap_iff hperm key
  · rw [ExpiringMap.peek?_of_items_eq_firsts hholds.traits]
    exact find?_flatMap_eq_some_iff hperm hfiles key t
  · obtain ⟨files', hsorted', hholds'⟩ := hother.holds hsource hlisted
    obtain rfl : files = files' := Except.ok.inj (hsorted.symm.trans hsorted')
    exact hholds.sameIndex hholds'

/-- Of two files that define the same factory, the one with the marker in its path wins, although it comes later
in the order of names. -/
theorem pass_canonical_marked :
    let text := ['f', 'a', 'c', 't', 'o', 'r', 'y', ' ', ':', 'u', ' ', 'd', 'o']
    let source : Source := { list := fun _ => .ok ["a", "b"], modified := fun _ => .ok 0, read := fun _ => .ok text }
    let settings := { Settings.default with priorityOrder := [.text "b"], blockMode := .regex }
    let session : Session :=
      { settings := settings, services := .ofSettings settings, notifier := {}, store := .empty 60000, watch := {} }
    Session.create settings {} [] = .ok session ∧
      ∃ moments after, Passes source moments session after ∧
        ∃ factory, after.store.factories.peek? "u" = some factory ∧ factory.location.file = "b" := by
  intro text source settings session
  let moment : Moment := ⟨⟨0, 0⟩, by decide +kernel, by decide +kernel⟩
  have hlifetime : (0 : Int) ≤ 60000 := by decide
  have hstore : Store.create (.int 60000) = .ok (.empty 60000) := by rfl
  have hcreate : Session.create settings {} [] = .ok session := congrArg (Except.map _) hstore
  have hranked : ([RawText.plain "a", RawText.plain "b"].mapM fun file =>
      (rank [.text "b"] file.forwardSlashes.points).map fun r => (r, file)) = .ok [(1, "a"), (0, "b")] := by rfl
  have hsorted : sortByPriority ["a", "b"] settings.priorityOrder = .ok ["b", "a"] := by
    rw [sortByPriority, hranked]
    simp [List.mergeSort, List.MergeSort.Internal.splitInTwo]
  have hfiles : filesToIndex source settings = .ok ["b", "a"] := hsorted
  have hpass : Passes source (fun _ => moment) session (session.index source moment.clock true).1 :=
    passes_index hfiles rfl moment (.const hlifetime hlifetime moment)
  have hsource : source.ListsInOrder := by
    intro globs listed hlisted
    cases hlisted
    simp only [List.pairwise_cons, List.mem_singleton, forall_eq, List.not_mem_nil, false_imp_iff, implies_true,
      List.Pairwise.nil, and_true]
    decide
  refine ⟨hcreate, _, _, hpass, _, ((pass_canonical hpass hsource rfl).2.2.1 "u" _).2 ⟨"b", by simp, rfl, ?_⟩, rfl⟩
  intro other hother hne _
  obtain rfl : other = "a" := by simpa [hne] using hother
  exact Or.inl (by decide +kernel)

end Session

end FactoryIndex
