import FactoryIndex.Proofs.Session.Pass
import FactoryIndex.Proofs.Store.Replacement
import FactoryIndex.Session.Operation

/-!
# Following changes

A session that has indexed a project can follow the changes of its files one by one, or it can index the
project anew. Both lead to the same definitions, in whatever order the changes are followed, as long as no two
files define the same name. While changes are followed, the store is between two states of the project:
`Between` says that it holds the new definitions of the files that have been looked at, and the old ones of
the others, except where a new definition has already taken over the name of an old one. A definition that
moves from one file to another may therefore be found in its new file before it is gone from its old one, or be
gone for a while, and both is made up for by the other change.
-/

namespace FactoryIndex

namespace Store.Kind

variable {α : Type} (kind : Kind α)

/-- Definitions that are not the same have different keys. -/
def Distinct (defined : α → Prop) : Prop :=
  ∀ a b, defined a → defined b → kind.keyOf a = kind.keyOf b → a = b

/-- A store holds all definitions that there are, and nothing else. -/
def Matches (defined : α → Prop) (store : Store) : Prop :=
  ∀ key value, kind.stored store key = some value ↔ kind.keyOf value = key ∧ defined value

/-- A store holds the new definitions of some files and the old ones of all others, unless a new one has taken
their key. -/
def Between (old new : α → Prop) (done : List RawText) (store : Store) : Prop :=
  ∀ key value, kind.stored store key = some value ↔ kind.keyOf value = key ∧
    ((new value ∧ kind.fileOf value ∈ done) ∨
      (old value ∧ kind.fileOf value ∉ done ∧
        ∀ rival, new rival → kind.fileOf rival ∈ done → kind.keyOf rival ≠ key))

variable {kind} {old new defined : α → Prop} {done : List RawText} {store after : Store}

theorem Matches.between (h : kind.Matches old store) : kind.Between old new [] store := by
  intro key value
  rw [h key value]
  simp

/-- One more file is looked at: what came from it gives way to its new definitions. -/
theorem Between.step (hdistinct : kind.Distinct new) (h : kind.Between old new done store) {file : RawText}
    (hfile : file ∉ done) {values : List α} (hvalues : ∀ value, value ∈ values ↔ new value ∧ kind.fileOf value = file)
    (hreplaces : kind.Replaces file values store after) : kind.Between old new (done ++ [file]) after := by
  intro key value
  rw [hreplaces key value, h key value, hvalues]
  simp only [List.mem_append, List.mem_singleton]
  constructor
  · rintro (⟨⟨hnew, rfl⟩, hkey⟩ | ⟨⟨hkey, hheld⟩, hother, hfree⟩)
    · exact ⟨hkey, Or.inl ⟨hnew, Or.inr rfl⟩⟩
    · refine ⟨hkey, ?_⟩
      rcases hheld with ⟨hnew, hdone⟩ | ⟨hold, hnot, hrivals⟩
      · exact Or.inl ⟨hnew, Or.inl hdone⟩
      · refine Or.inr ⟨hold, fun hmem => hmem.elim hnot hother, fun rival hrival hmem => ?_⟩
        rcases hmem with hdone | heq
        · exact hrivals rival hrival hdone
        · exact hfree rival ((hvalues rival).2 ⟨hrival, heq⟩)
  · rintro ⟨hkey, ⟨hnew, hdone | hthis⟩ | ⟨hold, hnot, hrivals⟩⟩
    · -- A new definition of another file has no rival in this one.
      refine Or.inr ⟨⟨hkey, Or.inl ⟨hnew, hdone⟩⟩, fun heq => hfile (heq ▸ hdone), fun rival hrival heq => ?_⟩
      obtain ⟨hrivalNew, hrivalFile⟩ := (hvalues rival).1 hrival
      obtain rfl := hdistinct rival value hrivalNew hnew (heq.trans hkey.symm)
      exact hfile (hrivalFile ▸ hdone)
    · exact Or.inl ⟨⟨hnew, hthis⟩, hkey⟩
    · refine Or.inr ⟨⟨hkey, Or.inr ⟨hold, fun hdone => hnot (Or.inl hdone), ?_⟩⟩, fun heq => hnot (Or.inr heq), ?_⟩
      · exact fun rival hrival hdone => hrivals rival hrival (Or.inl hdone)
      · intro rival hrival
        obtain ⟨hrivalNew, hrivalFile⟩ := (hvalues rival).1 hrival
        exact hrivals rival hrivalNew (Or.inr hrivalFile)

/-- Once all files that differ have been looked at, nothing old is left. -/
theorem Between.matches (hdistinct : kind.Distinct new) (h : kind.Between old new done store)
    (hkept : ∀ value, kind.fileOf value ∉ done → (old value ↔ new value)) : kind.Matches new store := by
  intro key value
  rw [h key value]
  refine and_congr_right fun hkey => ?_
  constructor
  · rintro (⟨hnew, -⟩ | ⟨hold, hnot, -⟩)
    · exact hnew
    · exact (hkept value hnot).1 hold
  · intro hnew
    by_cases hdone : kind.fileOf value ∈ done
    · exact Or.inl ⟨hnew, hdone⟩
    · refine Or.inr ⟨(hkept value hdone).2 hnew, hdone, fun rival hrival hrivalDone heq => ?_⟩
      obtain rfl := hdistinct rival value hrival hnew (heq.trans hkey.symm)
      exact hdone hrivalDone

theorem Matches.stored_eq (h : kind.Matches defined store) (hafter : kind.Matches defined after) (key : String) :
    kind.stored store key = kind.stored after key :=
  Option.ext fun value => (h key value).trans (hafter key value).symm

end Store.Kind

/-! ### Two states of a project -/

def Source.DefinesFactory (source : Source) (mode : BlockMode) (listed : List RawText) (factory : Factory) : Prop :=
  ∃ file ∈ listed, factory ∈ (source.outline mode file).factories

def Source.DefinesTrait (source : Source) (mode : BlockMode) (listed : List RawText) (t : Trait) : Prop :=
  ∃ file ∈ listed, t ∈ (source.outline mode file).traits

/-- A source lists the given files, each once and in the order of their names, and every name and every key is
defined at most once in them. -/
structure Source.Unambiguous (source : Source) (globs : List RawText) (mode : BlockMode) (listed : List RawText) :
    Prop where
  listsInOrder : source.ListsInOrder
  list_eq : source.list globs = .ok listed
  names : ((listed.flatMap fun file => (source.outline mode file).factories).map Factory.name).Nodup
  keys : ((listed.flatMap fun file => (source.outline mode file).traits).map Trait.key).Nodup

/-- What has happened to a file between two states of a project: it is new, it is gone, or its text is another
one, can be read now or cannot be read any more. -/
def changeOf (old new : Source) (oldFiles newFiles : List RawText) (file : RawText) : Option ChangeKind :=
  if file ∈ oldFiles then
    if file ∈ newFiles then
      if (old.read file).toOption = (new.read file).toOption then none else some .changed
    else some .deleted
  else if file ∈ newFiles then some .created else none

namespace Source.Unambiguous

variable {source : Source} {globs : List RawText} {mode : BlockMode} {listed : List RawText}

theorem distinct_factories (h : source.Unambiguous globs mode listed) :
    Store.Kind.factory.Distinct (source.DefinesFactory mode listed) := by
  rintro a b ⟨fileA, hfileA, ha⟩ ⟨fileB, hfileB, hb⟩ hkey
  exact List.inj_on_of_nodup_map h.names (List.mem_flatMap.2 ⟨fileA, hfileA, ha⟩)
    (List.mem_flatMap.2 ⟨fileB, hfileB, hb⟩) hkey

theorem distinct_traits (h : source.Unambiguous globs mode listed) :
    Store.Kind.trait.Distinct (source.DefinesTrait mode listed) := by
  rintro a b ⟨fileA, hfileA, ha⟩ ⟨fileB, hfileB, hb⟩ hkey
  exact List.inj_on_of_nodup_map h.keys (List.mem_flatMap.2 ⟨fileA, hfileA, ha⟩)
    (List.mem_flatMap.2 ⟨fileB, hfileB, hb⟩) hkey

theorem nodup_outline (h : source.Unambiguous globs mode listed) {file : RawText} (hfile : file ∈ listed) :
    ((source.outline mode file).factories.map Factory.name).Nodup ∧
      ((source.outline mode file).traits.map Trait.key).Nodup := by
  have hnames := h.names
  have hkeys := h.keys
  rw [List.map_flatMap, List.nodup_flatMap] at hnames hkeys
  exact ⟨hnames.1 file hfile, hkeys.1 file hfile⟩

end Source.Unambiguous

theorem Source.file_of_mem_factories {source : Source} {mode : BlockMode} {file : RawText} {factory : Factory}
    (hmem : factory ∈ (source.outline mode file).factories) : factory.location.file = file := by
  unfold Source.outline at hmem
  split at hmem
  · exact Outline.file_of_mem_factories_parse hmem
  · cases hmem

theorem Source.file_of_mem_traits {source : Source} {mode : BlockMode} {file : RawText} {t : Trait}
    (hmem : t ∈ (source.outline mode file).traits) : t.location.file = file := by
  unfold Source.outline at hmem
  split at hmem
  · exact Outline.file_of_mem_traits_parse hmem
  · cases hmem

/-- A sort of definition that is always located in the file whose outline holds it. -/
def LocatedInFile {α : Type} (view : Outline → List α) (fileOf : α → RawText) : Prop :=
  ∀ (source : Source) (mode : BlockMode) (file : RawText) (value : α),
    value ∈ view (source.outline mode file) → fileOf value = file

theorem locatedInFile_factories : LocatedInFile Outline.factories Store.Kind.factory.fileOf :=
  fun _ _ _ _ hmem => Source.file_of_mem_factories hmem

theorem locatedInFile_traits : LocatedInFile Outline.traits Store.Kind.trait.fileOf :=
  fun _ _ _ _ hmem => Source.file_of_mem_traits hmem

theorem Source.outline_eq_of_read_eq {old new : Source} {file : RawText}
    (hread : (old.read file).toOption = (new.read file).toOption) (mode : BlockMode) :
    old.outline mode file = new.outline mode file := by
  have houtline : ∀ source : Source, source.outline mode file =
      (source.read file).toOption.elim {} fun text => Outline.parse mode text file := by
    intro source
    unfold Source.outline
    cases source.read file <;> rfl
  rw [houtline old, houtline new, hread]

/-- A file to which nothing has happened defines what it did before. -/
theorem outline_eq_of_changeOf_eq_none {old new : Source} {oldFiles newFiles : List RawText} {file : RawText}
    (hnone : changeOf old new oldFiles newFiles file = none) (mode : BlockMode) :
    (file ∈ oldFiles ↔ file ∈ newFiles) ∧
      (file ∈ oldFiles → old.outline mode file = new.outline mode file) := by
  unfold changeOf at hnone
  split at hnone
  · next hold =>
    split at hnone
    · next hnew =>
      split at hnone
      · next hread => exact ⟨⟨fun _ => hnew, fun _ => hold⟩, fun _ => Source.outline_eq_of_read_eq hread mode⟩
      · cases hnone
    · cases hnone
  · next hold =>
    split at hnone
    · cases hnone
    · next hnew => exact ⟨⟨fun h => absurd h hold, fun h => absurd h hnew⟩, fun h => absurd h hold⟩

namespace LocatedInFile

variable {α : Type} {view : Outline → List α} {fileOf : α → RawText} {source old new : Source} {mode : BlockMode}
  {listed listed' : List RawText} {file : RawText}

theorem mem_iff (h : LocatedInFile view fileOf) (hfile : file ∈ listed) (value : α) :
    value ∈ view (source.outline mode file) ↔
      (∃ other ∈ listed, value ∈ view (source.outline mode other)) ∧ fileOf value = file := by
  constructor
  · intro hmem
    exact ⟨⟨file, hfile, hmem⟩, h source mode file value hmem⟩
  · rintro ⟨⟨other, -, hmem⟩, heq⟩
    obtain rfl : other = file := (h source mode other value hmem).symm.trans heq
    exact hmem

theorem mem_nil_iff (h : LocatedInFile view fileOf) (hfile : file ∉ listed) (value : α) :
    value ∈ [] ↔ (∃ other ∈ listed, value ∈ view (source.outline mode other)) ∧ fileOf value = file := by
  simp only [List.not_mem_nil, false_iff, not_and]
  rintro ⟨other, hother, hmem⟩ heq
  have hsame : other = file := (h source mode other value hmem).symm.trans heq
  exact hfile (hsame ▸ hother)

/-- Nothing changes about the definitions of files to which nothing has happened. -/
theorem defined_iff (h : LocatedInFile view fileOf) {done : List RawText}
    (hunchanged : ∀ file, file ∉ done → changeOf old new listed listed' file = none) (mode : BlockMode)
    (value : α) (hvalue : fileOf value ∉ done) :
    (∃ file ∈ listed, value ∈ view (old.outline mode file)) ↔
      ∃ file ∈ listed', value ∈ view (new.outline mode file) := by
  constructor
  · rintro ⟨file, hfile, hmem⟩
    rw [h old mode file value hmem] at hvalue
    obtain ⟨hlisted, houtline⟩ := outline_eq_of_changeOf_eq_none (hunchanged file hvalue) mode
    exact ⟨file, hlisted.1 hfile, houtline hfile ▸ hmem⟩
  · rintro ⟨file, hfile, hmem⟩
    rw [h new mode file value hmem] at hvalue
    obtain ⟨hlisted, houtline⟩ := outline_eq_of_changeOf_eq_none (hunchanged file hvalue) mode
    exact ⟨file, hlisted.2 hfile, houtline (hlisted.2 hfile) ▸ hmem⟩

end LocatedInFile

namespace Session

/-! ### A project that was just indexed -/

theorem find?_eq_some_iff_of_nodup {α : Type} {keyOf : α → String} {values : List α}
    (hkeys : (values.map keyOf).Nodup) (key : String) (value : α) :
    values.find? (fun other => keyOf other = key) = some value ↔ keyOf value = key ∧ value ∈ values := by
  constructor
  · intro hfind
    have hkey := List.find?_some hfind
    exact ⟨of_decide_eq_true hkey, List.mem_of_find?_eq_some hfind⟩
  · rintro ⟨hkey, hmem⟩
    cases hfind : values.find? fun other => keyOf other = key with
    | none => exact absurd (decide_eq_true hkey) (List.find?_eq_none.1 hfind value hmem)
    | some found =>
        have hfound := List.find?_some hfind
        have heq : keyOf found = keyOf value := (of_decide_eq_true hfound).trans hkey.symm
        rw [List.inj_on_of_nodup_map hkeys (List.mem_of_find?_eq_some hfind) hmem heq]

section Indexed

variable {source : Source} {moments : Nat → Moment} {session after : Session} {listed : List RawText}

theorem Passes.matches (hpass : Passes source moments session after)
    (hsource : source.Unambiguous session.settings.factoryPaths session.services.blockMode listed) :
    Store.Kind.factory.Matches (source.DefinesFactory session.services.blockMode listed) after.store ∧
      Store.Kind.trait.Matches (source.DefinesTrait session.services.blockMode listed) after.store := by
  obtain ⟨files, hsorted, hholds⟩ := hpass.holds hsource.listsInOrder hsource.list_eq
  have hperm := perm_of_sortByPriority hsorted
  constructor
  · intro name factory
    have hnames := ((hperm.flatMap_right fun file =>
      (source.outline session.services.blockMode file).factories).map Factory.name).nodup_iff.2 hsource.names
    rw [Store.Kind.stored, Store.Kind.factory, ExpiringMap.peek?_of_items_eq_firsts hholds.factories,
      find?_eq_some_iff_of_nodup hnames, List.mem_flatMap]
    simp only [hperm.mem_iff]
    rfl
  · intro key t
    have hkeys := ((hperm.flatMap_right fun file =>
      (source.outline session.services.blockMode file).traits).map Trait.key).nodup_iff.2 hsource.keys
    rw [Store.Kind.stored, Store.Kind.trait, ExpiringMap.peek?_of_items_eq_firsts hholds.traits,
      find?_eq_some_iff_of_nodup hkeys, List.mem_flatMap]
    simp only [hperm.mem_iff]
    rfl

theorem Passes.attributed (hpass : Passes source moments session after)
    (hsource : source.Unambiguous session.settings.factoryPaths session.services.blockMode listed) :
    after.store.Attributed := by
  obtain ⟨files, -, hholds⟩ := hpass.holds hsource.listsInOrder hsource.list_eq
  exact hholds.attributed

/-- The entries of files are stamped with the time of day at which the first of their definitions was filed. -/
theorem Passes.stamped (hpass : Passes source moments session after)
    (hsource : source.Unambiguous session.settings.factoryPaths session.services.blockMode listed) :
    after.store.Stamped fun _ time => ∃ n, time = (moments n).clock.wall := by
  obtain ⟨files, -, -, hstore⟩ := hpass.store_eq hsource.listsInOrder hsource.list_eq
  have hclear : session.store.clear.Stamped fun _ time => ∃ n, time = (moments n).clock.wall := by
    intro file entry hentry
    cases hentry
  rw [hstore]
  exact (hclear.fill _ (fun _ n => ⟨n, rfl⟩) _ _).setInitialized true

theorem services_notifyAll (session : Session) (events : List Event) :
    (session.notifyAll events).services = session.services := view_notifyAll (fun _ _ => rfl) session events

theorem Passes.services (hpass : Passes source moments session after) : after.services = session.services := by
  obtain ⟨-, files, completed, hfiles, -, rfl⟩ := hpass
  have hstart : (session.startPass source (moments 0).clock).services = session.services := by
    unfold startPass
    simp only [hfiles]
    split
    · exact services_finishPass _ _ _ _
    · rfl
  unfold passOnce
  simp only
  split
  · rw [services_finishPass, hstart]
  · exact hstart

end Indexed

/-! ### One change -/

section Change

variable {source : Source} {session : Session} {file : RawText}

theorem handleChange_deleted (source : Source) (clock : Clock) (file : RawText) (session : Session) :
    (session.handleChange source clock (.raw file) (.text ChangeKind.deleted.name)).2 = .ok true ∧
      (session.handleChange source clock (.raw file) (.text ChangeKind.deleted.name)).1.store =
        session.store.removeFile file ∧
      (session.handleChange source clock (.raw file) (.text ChangeKind.deleted.name)).1.services =
        session.services :=
  ⟨rfl, rfl, rfl⟩

theorem ofRead_eq_ok (mode : BlockMode)
    (hread : ∀ failure, source.read file = .error failure → failure.kind.isUnreadable = true) :
    ∃ events, Outline.ofRead mode ⟨file, source.delay file, source.read file⟩ =
      .ok (source.outline mode file, events) := by
  unfold Outline.ofRead Source.outline
  cases houtcome : source.read file with
  | ok text => exact ⟨_, rfl⟩
  | error failure =>
      refine ⟨[Outline.readFailure file failure], ?_⟩
      simp only [hread failure houtcome, if_true]

theorem startChange_of_modified {file : RawText} {kind : ChangeKind} {time : Int} (hkind : kind ≠ .deleted)
    (hmodified : source.modified (.raw file) = .ok time) (session : Session) :
    session.startChange source (.raw file) (.text kind.name) =
      (session, .ok (if session.store.shouldReindex file time then .reading file time else .settled false)) := by
  cases kind with
  | deleted => exact absurd rfl hkind
  | created => simp only [startChange, ChangeKind.name, ChangeKind.ofValue, hmodified]
  | changed => simp only [startChange, ChangeKind.name, ChangeKind.ofValue, hmodified]

theorem handleChange_reindexed {kind : ChangeKind} {time : Int} (moment : Moment) (hkind : kind ≠ .deleted)
    (hmodified : source.modified (.raw file) = .ok time)
    (hreindex : session.store.shouldReindex file time = true)
    (hread : ∀ failure, source.read file = .error failure → failure.kind.isUnreadable = true) :
    (session.handleChange source moment.clock (.raw file) (.text kind.name)).2 = .ok true ∧
      (session.handleChange source moment.clock (.raw file) (.text kind.name)).1.store =
        session.store.replaceFile moment.clock file (source.outline session.services.blockMode file).factories
          (source.outline session.services.blockMode file).traits (some time) ∧
      (session.handleChange source moment.clock (.raw file) (.text kind.name)).1.services =
        session.services := by
  obtain ⟨events, houtline⟩ := ofRead_eq_ok session.services.blockMode hread
  unfold handleChange
  simp only [startChange_of_modified hkind hmodified, hreindex, if_true, reindex, houtline]
  rw [Store.Timed.replaceFile_of_readable moment.measures moment.tellsDay, store_notifyAll]
  exact ⟨rfl, rfl, services_notifyAll session events⟩

end Change

/-! ### All changes, one after the other -/

/-- A call that announces a change of a file, at a moment of its own. -/
structure ChangeCall where
  moment : Moment
  file : RawText
  kind : ChangeKind

/-- Handles changes one after the other. The outcomes tell which files were indexed anew. -/
def follow (source : Source) : List ChangeCall → Session → Session × List (Except Failure Bool)
  | [], session => (session, [])
  | call :: rest, session =>
    let (session, outcome) :=
      session.handleChange source call.moment.clock (.raw call.file) (.text call.kind.name)
    let (session, outcomes) := follow source rest session
    (session, outcome :: outcomes)

/-- The session while changes are followed: definitions are attributed to their files, they are between the old
and the new state of the project, and the files that were not looked at yet have entries from the time when the
project was indexed. -/
structure Following (old new : Source) (listed listed' : List RawText) (moments : Nat → Moment) (mode : BlockMode)
    (done : List RawText) (session : Session) : Prop where
  blockMode_eq : session.services.blockMode = mode
  attributed : session.store.Attributed
  factories : Store.Kind.factory.Between (old.DefinesFactory mode listed) (new.DefinesFactory mode listed') done
    session.store
  traits : Store.Kind.trait.Between (old.DefinesTrait mode listed) (new.DefinesTrait mode listed') done
    session.store
  stamped : session.store.Stamped fun file time => file ∈ done ∨ ∃ n, time = (moments n).clock.wall

/-- A call announces what has happened to its file. A file that is still there was modified after the project was
indexed, and it can be read as text or counts as unreadable. -/
structure Announces (old new : Source) (listed listed' : List RawText) (moments : Nat → Moment)
    (call : ChangeCall) : Prop where
  changeOf_eq : changeOf old new listed listed' call.file = some call.kind
  modified : call.kind ≠ .deleted → ∃ time, new.modified (.raw call.file) = .ok time ∧
    ∀ n, (moments n).clock.wall < time
  unreadable : ∀ failure, new.read call.file = .error failure → failure.kind.isUnreadable = true

section Run

variable {old new : Source} {globs : List RawText} {listed listed' : List RawText} {moments : Nat → Moment}
  {mode : BlockMode} {done : List RawText} {session : Session}

theorem mem_of_changeOf_eq_some {file : RawText} {kind : ChangeKind}
    (hchange : changeOf old new listed listed' file = some kind) : file ∈ listed' ↔ kind ≠ .deleted := by
  unfold changeOf at hchange
  split at hchange
  · split at hchange
    · next hmem =>
      split at hchange
      · cases hchange
      · cases hchange
        simp [hmem]
    · next hmem =>
      cases hchange
      simp [hmem]
  · split at hchange
    · next hmem =>
      cases hchange
      simp [hmem]
    · cases hchange

theorem Following.step (hnew : new.Unambiguous globs mode listed')
    (h : Following old new listed listed' moments mode done session) {call : ChangeCall}
    (hcall : Announces old new listed listed' moments call) (hdone : call.file ∉ done) :
    (session.handleChange new call.moment.clock (.raw call.file) (.text call.kind.name)).2 = .ok true ∧
      Following old new listed listed' moments mode (done ++ [call.file])
        (session.handleChange new call.moment.clock (.raw call.file) (.text call.kind.name)).1 := by
  have hstamped : session.store.Stamped fun file time =>
      file ∈ done ++ [call.file] ∨ ∃ n, time = (moments n).clock.wall := by
    intro file entry hentry
    exact (h.stamped file entry hentry).imp_left fun hmem => List.mem_append_left _ hmem
  by_cases hkind : call.kind = .deleted
  · obtain ⟨houtcome, hstore, hservices⟩ := handleChange_deleted new call.moment.clock call.file session
    have hgone : call.file ∉ listed' := by
      rw [mem_of_changeOf_eq_some hcall.changeOf_eq]
      exact fun hne => hne hkind
    obtain ⟨hfactories, htraits⟩ := Store.replaces_removeFile h.attributed call.file
    rw [hkind]
    refine ⟨houtcome, hservices ▸ h.blockMode_eq, ?_, ?_, ?_, ?_⟩
    · rw [hstore]
      exact h.attributed.removeFile _
    · rw [hstore]
      exact h.factories.step hnew.distinct_factories hdone (locatedInFile_factories.mem_nil_iff hgone) hfactories
    · rw [hstore]
      exact h.traits.step hnew.distinct_traits hdone (locatedInFile_traits.mem_nil_iff hgone) htraits
    · rw [hstore]
      exact hstamped.removeFile _
  · obtain ⟨time, hmodified, htime⟩ := hcall.modified hkind
    have hlisted : call.file ∈ listed' := (mem_of_changeOf_eq_some hcall.changeOf_eq).2 hkind
    have hreindex : session.store.shouldReindex call.file time = true := by
      unfold Store.shouldReindex
      split
      · next entry hentry =>
        obtain hmem | ⟨n, hn⟩ := h.stamped _ entry hentry
        · exact absurd hmem hdone
        · exact decide_eq_true (hn ▸ htime n)
      · rfl
    obtain ⟨houtcome, hstore, hservices⟩ :=
      handleChange_reindexed call.moment hkind hmodified hreindex hcall.unreadable
    rw [h.blockMode_eq] at hstore
    obtain ⟨hnames, hkeys⟩ := hnew.nodup_outline hlisted
    obtain ⟨hfactories, htraits⟩ := Store.replaces_replaceFile h.attributed call.moment.clock call.file
      hnames hkeys (some time)
    refine ⟨houtcome, hservices ▸ h.blockMode_eq, ?_, ?_, ?_, ?_⟩
    · rw [hstore]
      exact h.attributed.replaceFile _ _ _ _ _
    · rw [hstore]
      exact h.factories.step hnew.distinct_factories hdone (locatedInFile_factories.mem_iff hlisted) hfactories
    · rw [hstore]
      exact h.traits.step hnew.distinct_traits hdone (locatedInFile_traits.mem_iff hlisted) htraits
    · rw [hstore]
      exact hstamped.replaceFile _ (fun _ hmem => Source.file_of_mem_factories hmem)
        (fun _ hmem => Source.file_of_mem_traits hmem) (fun _ => Or.inl (by simp)) _

theorem Following.follow (hnew : new.Unambiguous globs mode listed') {calls : List ChangeCall}
    (hcalls : ∀ call ∈ calls, Announces old new listed listed' moments call)
    (honce : (calls.map ChangeCall.file).Nodup) (hdone : ∀ call ∈ calls, call.file ∉ done)
    (h : Following old new listed listed' moments mode done session) :
    (∀ outcome ∈ (session.follow new calls).2, outcome = .ok true) ∧
      Following old new listed listed' moments mode (done ++ calls.map ChangeCall.file)
        (session.follow new calls).1 := by
  induction calls generalizing done session with
  | nil =>
      refine ⟨fun outcome hmem => absurd hmem List.not_mem_nil, ?_⟩
      rw [List.map_nil, List.append_nil]
      exact h
  | cons call rest ih =>
      rw [List.map_cons, List.nodup_cons] at honce
      obtain ⟨houtcome, hstep⟩ := h.step hnew (hcalls call List.mem_cons_self) (hdone call List.mem_cons_self)
      have hrest : ∀ other ∈ rest, other.file ∉ done ++ [call.file] := by
        intro other hother hmem
        rcases List.mem_append.1 hmem with hmem | hmem
        · exact hdone other (List.mem_cons_of_mem _ hother) hmem
        · have hfile : other.file = call.file := List.mem_singleton.1 hmem
          exact honce.1 (hfile ▸ List.mem_map_of_mem hother)
      obtain ⟨houtcomes, hfollow⟩ := ih (fun other hother => hcalls other (List.mem_cons_of_mem _ hother))
        honce.2 hrest hstep
      rw [List.append_assoc] at hfollow
      refine ⟨fun outcome hmem => ?_, hfollow⟩
      rcases List.mem_cons.1 hmem with rfl | hmem
      · exact houtcome
      · exact houtcomes outcome hmem

theorem Passes.following {indexed : Session}
    (hold : old.Unambiguous session.settings.factoryPaths session.services.blockMode listed)
    (hpass : Passes old moments session indexed) :
    Following old new listed listed' moments session.services.blockMode [] indexed := by
  obtain ⟨hfactories, htraits⟩ := hpass.matches hold
  refine ⟨congrArg Services.blockMode hpass.services, hpass.attributed hold, hfactories.between,
    htraits.between, ?_⟩
  intro file entry hentry
  exact Or.inr (hpass.stamped hold file entry hentry)

/-- **Following changes agrees with indexing anew.** Each of two states of a project defines every name and every
key at most once. A session that has indexed the first state and then follows every change that leads to the
second one, in any order, ends with the same definitions as one that indexes the second state, noted for the
same files. Every call indexes its file anew. -/
theorem follow_agrees {fresh indexed reindexed : Session} {moments' : Nat → Moment}
    (hindexed : Passes old moments session indexed) (hreindexed : Passes new moments' fresh reindexed)
    (hsettings : fresh.settings = session.settings) (hservices : fresh.services = session.services)
    (hold : old.Unambiguous session.settings.factoryPaths session.services.blockMode listed)
    (hnew : new.Unambiguous session.settings.factoryPaths session.services.blockMode listed')
    {calls : List ChangeCall} (honce : (calls.map ChangeCall.file).Nodup)
    (hcalls : ∀ call ∈ calls, Announces old new listed listed' moments call)
    (hall : ∀ file, changeOf old new listed listed' file ≠ none → ∃ call ∈ calls, call.file = file) :
    (∀ outcome ∈ (indexed.follow new calls).2, outcome = .ok true) ∧
      (indexed.follow new calls).1.store.Agrees reindexed.store := by
  obtain ⟨houtcomes, hfollowing⟩ := (hindexed.following hold).follow hnew hcalls honce fun _ _ => List.not_mem_nil
  rw [← hsettings, ← hservices] at hnew
  obtain ⟨hfactories, htraits⟩ := hreindexed.matches hnew
  have hattributed := hreindexed.attributed hnew
  rw [hservices] at hfactories htraits hnew
  have hunchanged : ∀ file, file ∉ [] ++ calls.map ChangeCall.file →
      changeOf old new listed listed' file = none := by
    intro file hnot
    by_contra hchanged
    obtain ⟨call, hcall, rfl⟩ := hall file hchanged
    exact hnot (List.mem_append_right _ (List.mem_map_of_mem hcall))
  refine ⟨houtcomes, .of_stored hfollowing.attributed hattributed ?_ ?_⟩
  · have hkept := locatedInFile_factories.defined_iff hunchanged session.services.blockMode
    exact (hfollowing.factories.matches hnew.distinct_factories hkept).stored_eq hfactories
  · have hkept := locatedInFile_traits.defined_iff hunchanged session.services.blockMode
    exact (hfollowing.traits.matches hnew.distinct_traits hkept).stored_eq htraits

end Run

/-- A factory that moves from one file to another, the change of the new file being followed first. -/
theorem follow_agrees_moved :
    let text := ['f', 'a', 'c', 't', 'o', 'r', 'y', ' ', ':', 'u', ' ', 'd', 'o']
    let source (a b : List Char) : Source :=
      { list := fun _ => .ok ["a", "b"]
        modified := fun _ => .ok 1
        read := fun file => .ok (if file = "a" then a else b) }
    let settings := { Settings.default with priorityOrder := [], blockMode := .regex }
    let session : Session :=
      { settings := settings, services := .ofSettings settings, notifier := {}, store := .empty 60000, watch := {} }
    ∃ moment : Moment,
      let indexed := (session.index (source text []) moment.clock true).1
      let reindexed := (session.index (source [] text) moment.clock true).1
      let calls : List ChangeCall := [⟨moment, "b", .changed⟩, ⟨moment, "a", .changed⟩]
      (indexed.follow (source [] text) calls).1.store.Agrees reindexed.store := by
  intro text source settings session
  let moment : Moment := ⟨⟨0, 0⟩, by decide +kernel, by decide +kernel⟩
  refine ⟨moment, ?_⟩
  intro indexed reindexed calls
  have hlifetime : (0 : Int) ≤ 60000 := by decide
  have hranked : ([RawText.plain "a", RawText.plain "b"].mapM fun file =>
      (rank [] file.forwardSlashes.points).map fun r => (r, file)) = .ok [(0, "a"), (0, "b")] := by rfl
  have hsorted : sortByPriority ["a", "b"] settings.priorityOrder = .ok ["a", "b"] := by
    rw [sortByPriority, hranked]
    simp [List.mergeSort]
  have hfiles : ∀ a b, filesToIndex (source a b) settings = .ok ["a", "b"] := fun _ _ => hsorted
  have hpass : ∀ a b, Passes (source a b) (fun _ => moment) session
      (session.index (source a b) moment.clock true).1 :=
    fun a b => passes_index (hfiles a b) rfl moment (.const hlifetime hlifetime moment)
  have hlists : ∀ a b, (source a b).ListsInOrder := by
    intro a b globs listed hlisted
    cases hlisted
    simp only [List.pairwise_cons, List.mem_singleton, forall_eq, List.not_mem_nil, false_imp_iff, implies_true,
      List.Pairwise.nil, and_true]
    decide
  have hold : (source text []).Unambiguous settings.factoryPaths .regex ["a", "b"] :=
    ⟨hlists _ _, rfl, List.nodup_singleton "u", List.nodup_nil⟩
  have hnew : (source [] text).Unambiguous settings.factoryPaths .regex ["a", "b"] :=
    ⟨hlists _ _, rfl, List.nodup_singleton "u", List.nodup_nil⟩
  have hannounces : ∀ call ∈ calls, Announces (source text []) (source [] text) ["a", "b"] ["a", "b"]
      (fun _ => moment) call := by
    intro call hcall
    simp only [calls, List.mem_cons, List.not_mem_nil, or_false] at hcall
    rcases hcall with rfl | rfl
    · exact ⟨by decide +kernel, fun _ => ⟨1, rfl, fun _ => by decide +kernel⟩, fun _ h => by cases h⟩
    · exact ⟨by decide +kernel, fun _ => ⟨1, rfl, fun _ => by decide +kernel⟩, fun _ h => by cases h⟩
  refine (follow_agrees (hpass text []) (hpass [] text) rfl rfl hold hnew ?_ hannounces ?_).2
  · decide
  · intro file hchange
    by_contra hnone
    simp only [calls, List.exists_mem_cons_iff, List.not_mem_nil, false_and, exists_false, or_false, not_or] at hnone
    exact hchange (by simp [changeOf, Ne.symm hnone.1, Ne.symm hnone.2])

end Session

end FactoryIndex
