import FactoryIndex.Proofs.Session.Idle
import FactoryIndex.Proofs.Session.Incremental
import FactoryIndex.Proofs.Store.Census
import FactoryIndex.Proofs.Workspace.Listing

/-!
# Polling brings the index up to date

To poll compares the times of files with those of the last snapshot, and tells the session about every file that is new,
modified later, or gone. The session looks at such a file again unless its entry has a time that is not before that of
the file. So there are two ways to miss a change: the snapshot does not tell, or the entry does not. Here both are
ruled out by hypothesis, and what is left is that the store gets from the census it shows to that of the files as they
are now. When the hypotheses hold is a matter of what has happened before, and of when snapshots were taken.
-/

namespace FactoryIndex

/-! ### Files as a source shows them -/

/-- What holds of files below a folder: they are listed in order and can be watched, a file that can be read has a
time, and one that has a time but cannot be read is taken for empty. -/
structure Source.Regular (source : Source) : Prop where
  listsInOrder : source.ListsInOrder
  tracksChanges : source.tracksChanges = true
  modified_of_read : ∀ (file : RawText) text, source.read file = .ok text →
    ∃ time, source.modified (.raw file) = .ok time
  isUnreadable : ∀ (file : RawText) time failure, source.modified (.raw file) = .ok time →
    source.read file = .error failure → failure.kind.isUnreadable = true

theorem Tree.regular_source (tree : Tree) (folder : Path) : (tree.source folder).Regular := by
  refine ⟨tree.listsInOrder_source folder, rfl, ?_, ?_⟩
  · intro file text hread
    simp only [Tree.source] at hread ⊢
    exact modified_of_read hread
  · intro file time failure hmodified hread
    simp only [Tree.source] at hmodified hread
    exact isUnreadable_of_modified hmodified hread

/-- A file at some time: when it was last modified, and its text as far as it can be read. -/
structure Version where
  time : Int
  text : Option (List Char)
  deriving Repr, DecidableEq

namespace Source

variable {source old new : Source} {mode : BlockMode} {listed listed' : List RawText} {file : RawText}

/-- The version of a file that is listed. There is none if its time cannot be told. -/
def version? (source : Source) (listed : List RawText) (file : RawText) : Option Version :=
  if file ∈ listed then
    (source.modified (.raw file)).toOption.map fun time => ⟨time, (source.read file).toOption⟩
  else none

def census (source : Source) (mode : BlockMode) (listed : List RawText) : Census where
  factories file name := file ∈ listed ∧ ∃ factory ∈ (source.outline mode file).factories, factory.name = name
  traits file key := file ∈ listed ∧ ∃ t ∈ (source.outline mode file).traits, t.key = key

theorem version?_eq_some {version : Version} (hversion : source.version? listed file = some version) :
    file ∈ listed ∧ source.modified (.raw file) = .ok version.time ∧ version.text = (source.read file).toOption := by
  unfold version? at hversion
  split at hversion
  · next hmem =>
    cases hmodified : source.modified (.raw file) with
    | error failure =>
        rw [hmodified] at hversion
        cases hversion
    | ok time =>
        rw [hmodified] at hversion
        cases hversion
        exact ⟨hmem, rfl, rfl⟩
  · cases hversion

/-- A file that defines something has a version, and it defines what its text does. -/
theorem Regular.exists_version (h : source.Regular) {α : Type} {view : Outline → List α} (hempty : view {} = [])
    {defined : α → Prop} :
    (file ∈ listed ∧ ∃ value ∈ view (source.outline mode file), defined value) ↔
      ∃ version, source.version? listed file = some version ∧ ∃ text, version.text = some text ∧
        ∃ value ∈ view (Outline.parse mode text file), defined value := by
  constructor
  · intro ⟨hfile, value, hvalue, hdefined⟩
    unfold outline at hvalue
    split at hvalue
    · next text hread =>
      obtain ⟨time, hmodified⟩ := h.modified_of_read file text hread
      refine ⟨⟨time, some text⟩, ?_, text, rfl, value, hvalue, hdefined⟩
      rw [version?, if_pos hfile, hmodified, hread]
      rfl
    · rw [hempty] at hvalue
      cases hvalue
  · intro ⟨version, hversion, text, htext, value, hvalue, hdefined⟩
    obtain ⟨hfile, -, hread⟩ := version?_eq_some hversion
    refine ⟨hfile, value, ?_, hdefined⟩
    rw [htext] at hread
    cases houtcome : source.read file with
    | error failure =>
        rw [houtcome] at hread
        cases hread
    | ok text' =>
        rw [houtcome] at hread
        cases hread
        rwa [outline, houtcome]

theorem Regular.census_factories_iff (h : source.Regular) (name : String) :
    (source.census mode listed).factories file name ↔
      ∃ version, source.version? listed file = some version ∧ ∃ text, version.text = some text ∧
        ∃ factory ∈ (Outline.parse mode text file).factories, factory.name = name :=
  h.exists_version rfl

theorem Regular.census_traits_iff (h : source.Regular) (key : String) :
    (source.census mode listed).traits file key ↔
      ∃ version, source.version? listed file = some version ∧ ∃ text, version.text = some text ∧
        ∃ t ∈ (Outline.parse mode text file).traits, t.key = key :=
  h.exists_version rfl

theorem Regular.agreeOn (hold : old.Regular) (hnew : new.Regular)
    (hsame : old.version? listed file = new.version? listed' file) :
    (old.census mode listed).AgreeOn (new.census mode listed') file := by
  constructor
  · intro name
    rw [hold.census_factories_iff, hnew.census_factories_iff, hsame]
  · intro key
    rw [hold.census_traits_iff, hnew.census_traits_iff, hsame]

end Source

namespace Session

variable {source : Source} {session after : Session}

/-! ### A pass shows the census -/

theorem exists_find?_flatMap_iff {α : Type} {keyOf : α → String} {fileOf : α → RawText} {defined : RawText → List α}
    {files listed : List RawText} (hperm : files.Perm listed)
    (hfile : ∀ file, ∀ value ∈ defined file, fileOf value = file)
    (hsole : ∀ a ∈ listed, ∀ b ∈ listed, ∀ value ∈ defined a, ∀ rival ∈ defined b,
      keyOf value = keyOf rival → a = b) (file : RawText) (key : String) :
    (∃ value, (files.flatMap defined).find? (fun value => keyOf value = key) = some value ∧ fileOf value = file) ↔
      file ∈ listed ∧ ∃ value ∈ defined file, keyOf value = key := by
  constructor
  · intro ⟨value, hfind, hvalue⟩
    have hkey := List.find?_some hfind
    obtain ⟨other, hother, hmem⟩ := List.mem_flatMap.1 (List.mem_of_find?_eq_some hfind)
    obtain rfl : other = file := (hfile other value hmem).symm.trans hvalue
    exact ⟨hperm.mem_iff.1 hother, value, hmem, of_decide_eq_true hkey⟩
  · intro ⟨hlisted, value, hvalue, hkey⟩
    cases hfind : (files.flatMap defined).find? fun value => keyOf value = key with
    | none =>
        have hnot := List.find?_eq_none.1 hfind value (List.mem_flatMap.2 ⟨file, hperm.mem_iff.2 hlisted, hvalue⟩)
        exact absurd (decide_eq_true hkey) hnot
    | some found =>
        have hfound := List.find?_some hfind
        obtain ⟨other, hother, hmem⟩ := List.mem_flatMap.1 (List.mem_of_find?_eq_some hfind)
        obtain rfl := hsole file hlisted other (hperm.mem_iff.1 hother) value hvalue found hmem
          (hkey.trans (of_decide_eq_true hfound).symm)
        exact ⟨found, rfl, hfile file found hmem⟩

theorem Passes.shows {moments : Nat → Moment} {listed : List RawText} (hpass : Passes source moments session after)
    (hregular : source.Regular) (hlisted : source.list session.settings.factoryPaths = .ok listed)
    (hsole : (source.census session.services.blockMode listed).Sole) :
    after.store.Shows (source.census session.services.blockMode listed) := by
  obtain ⟨files, hsorted, hholds⟩ := hpass.holds hregular.listsInOrder hlisted
  have hperm := perm_of_sortByPriority hsorted
  refine ⟨hholds.attributed, fun file name => ?_, fun file key => ?_⟩
  · rw [hholds.attributed.factories.noted_iff]
    simp only [Store.Kind.stored, Store.Kind.factory, ExpiringMap.peek?_of_items_eq_firsts hholds.factories]
    apply exists_find?_flatMap_iff hperm fun _ _ hmem => Source.file_of_mem_factories hmem
    intro a ha b hb value hvalue rival hrival hkey
    exact hsole.factories a b rival.name ⟨ha, value, hvalue, hkey⟩ ⟨hb, rival, hrival, rfl⟩
  · rw [hholds.attributed.traits.noted_iff]
    simp only [Store.Kind.stored, Store.Kind.trait, ExpiringMap.peek?_of_items_eq_firsts hholds.traits]
    apply exists_find?_flatMap_iff hperm fun _ _ hmem => Source.file_of_mem_traits hmem
    intro a ha b hb value hvalue rival hrival hkey
    exact hsole.traits a b rival.key ⟨ha, value, hvalue, hkey⟩ ⟨hb, rival, hrival, rfl⟩

theorem Passes.stamped_wall {moment : Moment} {listed : List RawText}
    (hpass : Passes source (fun _ => moment) session after) (hregular : source.Regular)
    (hlisted : source.list session.settings.factoryPaths = .ok listed) :
    after.store.Stamped fun _ time => time = moment.clock.wall := by
  obtain ⟨files, -, -, hstore⟩ := hpass.store_eq hregular.listsInOrder hlisted
  have hclear : session.store.clear.Stamped fun _ time => time = moment.clock.wall := by
    intro file entry hentry
    cases hentry
  rw [hstore]
  exact (hclear.fill _ (fun _ _ => by rfl) _ _).setInitialized true

/-! ### Being told about changes -/

theorem SameBut.trans {middle : Session} {store store' : Store} (hleft : SameBut store session middle)
    (hright : SameBut store' middle after) : SameBut store' session after :=
  ⟨hright.store_eq, hright.pass_eq.trans hleft.pass_eq, hright.watch_eq.trans hleft.watch_eq,
    hright.runs_eq.trans hleft.runs_eq⟩

theorem sameBut_self (session : Session) : SameBut session.store session session := ⟨rfl, rfl, rfl, rfl⟩

/-- Nothing of a session is new but its store and what it has reported. -/
def Confined (session after : Session) : Prop :=
  after = { session with store := after.store, events := after.events, log := after.log }

theorem confined_self (session : Session) : Confined session session := rfl

theorem Confined.trans {middle : Session} (hleft : Confined session middle) (hright : Confined middle after) :
    Confined session after := by
  unfold Confined at hleft hright ⊢
  rw [hright, hleft]

theorem Confined.view_eq {β : Type} (h : Confined session after) (view : Session → β)
    (hview : ∀ store events log,
      view { session with store := store, events := events, log := log } = view session) : view after = view session :=
  (congrArg view h).trans (hview _ _ _)

theorem confined_notifyAll (session : Session) (events : List Event) : Confined session (session.notifyAll events) := by
  rw [notifyAll_eq]
  rfl

theorem confined_removeFile (file : Value) (session : Session) : Confined session (session.removeFile file).1 := by
  unfold removeFile
  split <;> rfl

theorem confined_reindex (clock : Clock) (file : RawText) (modified : Int) (read : FileRead) (session : Session) :
    Confined session (session.reindex clock file modified read).1 := by
  unfold reindex
  split
  · exact confined_self session
  · next outline events _ =>
    have hevents := confined_notifyAll session events
    simp only
    split
    · exact hevents.trans rfl
    · exact hevents.trans rfl

/-- To be told about a change does nothing to a session except for its store and its reports. -/
theorem confined_handleChange (source : Source) (clock : Clock) (file kind : Value) (session : Session) :
    Confined session (session.handleChange source clock file kind).1 := by
  have hstart : Confined session (session.startChange source file kind).1 := by
    unfold startChange
    split
    · exact confined_self session
    · exact confined_removeFile file session
    · split
      · split
        · exact (confined_notifyAll session [_]).trans (confined_removeFile file _)
        · exact confined_self session
      · split <;> exact confined_self session
  apply handleChange_induction (motive := Confined session) hstart
  intro started name modified read hstarted
  exact hstarted.trans (confined_reindex clock name modified read started)

theorem sameBut_handleChange (source : Source) (clock : Clock) (file kind : Value) (session : Session) :
    SameBut (session.handleChange source clock file kind).1.store session
      (session.handleChange source clock file kind).1 := by
  have hconfined := confined_handleChange source clock file kind session
  exact ⟨rfl, hconfined.view_eq Session.pass fun _ _ _ => rfl, hconfined.view_eq Session.watch fun _ _ _ => rfl,
    hconfined.view_eq Session.runs fun _ _ _ => rfl⟩

theorem handleChange_settled {file : RawText} {kind : ChangeKind} {time : Int} (hkind : kind ≠ .deleted)
    (hmodified : source.modified (.raw file) = .ok time) (hreindex : session.store.shouldReindex file time = false)
    (clock : Clock) :
    session.handleChange source clock (.raw file) (.text kind.name) = (session, .ok false) := by
  simp only [handleChange, startChange_of_modified hkind hmodified, hreindex, Bool.false_eq_true, if_false]

end Session

theorem Store.initialized_removeFile (store : Store) (file : RawText) :
    (store.removeFile file).initialized = store.initialized := by
  unfold removeFile
  split <;> rfl

theorem Store.initialized_replaceFile (store : Store) (clock : Clock) (file : RawText) (factories : List Factory)
    (traits : List Trait) (modified : Option Int) :
    (store.replaceFile clock file factories traits modified).initialized = store.initialized := by
  have hupdate (store : Store) (file : RawText) (change : FileEntry → FileEntry) :
      (store.updateFile file change).initialized = store.initialized := by
    unfold updateFile
    split <;> rfl
  have hfactories (store : Store) : (factories.foldl (upsertFactory clock) store).initialized = store.initialized := by
    refine List.foldlRecOn (motive := fun after : Store => after.initialized = store.initialized) factories _ rfl ?_
    intro after hafter factory _
    rw [← hafter]
    show (after.releaseFactory factory).initialized = after.initialized
    unfold releaseFactory
    split
    · split
      · rfl
      · exact hupdate ..
    · rfl
  have htraits (store : Store) : (traits.foldl (upsertTrait clock) store).initialized = store.initialized := by
    refine List.foldlRecOn (motive := fun after : Store => after.initialized = store.initialized) traits _ rfl ?_
    intro after hafter t _
    rw [← hafter]
    show (after.releaseTrait t).initialized = after.initialized
    unfold releaseTrait
    split
    · split
      · rfl
      · exact hupdate ..
    · rfl
  exact (htraits _).trans ((hfactories _).trans (store.initialized_removeFile file))

namespace Session

variable {source : Source} {session : Session} {mode : BlockMode} {listed : List RawText} {old : Census}
  {allowed : RawText → Int → Prop} {done : List RawText}

/-- A session that is told about changes: its store gets from one census to that of the source, and entries that were
not made meanwhile are stamped as before. -/
structure Told (source : Source) (moment : Moment) (mode : BlockMode) (listed : List RawText) (old : Census)
    (allowed : RawText → Int → Prop) (done : List RawText) (session : Session) : Prop where
  blockMode_eq : session.services.blockMode = mode
  initialized : session.store.initialized = true
  mixes : session.store.Mixes old (source.census mode listed) done
  stamped : session.store.Stamped fun file time => allowed file time ∨ (file ∈ done ∧ (time = moment.clock.wall ∨
    ∃ version, source.version? listed file = some version ∧ time = version.time))

/-- What a source has to be like so that all changes are followed: regular, with no two files that define the same, and
such that an entry that is not before the version of its file shows what that version defines. -/
structure Followable (source : Source) (mode : BlockMode) (listed : List RawText) (old : Census)
    (allowed : RawText → Int → Prop) : Prop where
  regular : source.Regular
  old_sole : old.Sole
  new_sole : (source.census mode listed).Sole
  current : ∀ file version stamp, source.version? listed file = some version → allowed file stamp →
    version.time ≤ stamp → old.AgreeOn (source.census mode listed) file

theorem Told.tell_deleted (hsource : Followable source mode listed old allowed) {moment : Moment} {file : RawText}
    (hgone : source.version? listed file = none) (h : Told source moment mode listed old allowed done session) :
    (session.handleChange source moment.clock (.raw file) (.text ChangeKind.deleted.name)).2 = .ok true ∧
      Told source moment mode listed old allowed (file :: done)
        (session.handleChange source moment.clock (.raw file) (.text ChangeKind.deleted.name)).1 := by
  obtain ⟨houtcome, hstore, hservices⟩ := handleChange_deleted source moment.clock file session
  refine ⟨houtcome, hservices ▸ h.blockMode_eq, ?_, ?_, ?_⟩
  · rw [hstore, Store.initialized_removeFile]
    exact h.initialized
  · rw [hstore]
    apply h.mixes.removeFile hsource.new_sole
    · intro name
      rw [hsource.regular.census_factories_iff, hgone]
      simp
    · intro key
      rw [hsource.regular.census_traits_iff, hgone]
      simp
  · rw [hstore]
    apply Store.Stamped.removeFile
    intro other entry hentry
    exact (h.stamped other entry hentry).imp_right fun hdone => ⟨List.mem_cons_of_mem _ hdone.1, hdone.2⟩

theorem Told.tell_present (hsource : Followable source mode listed old allowed) {moment : Moment} {file : RawText}
    {kind : ChangeKind} (hkind : kind ≠ .deleted) {version : Version}
    (hversion : source.version? listed file = some version)
    (h : Told source moment mode listed old allowed done session) :
    ∃ reindexed,
      (session.handleChange source moment.clock (.raw file) (.text kind.name)).2 = .ok reindexed ∧
      Told source moment mode listed old allowed (file :: done)
        (session.handleChange source moment.clock (.raw file) (.text kind.name)).1 := by
  have hstamped : session.store.Stamped fun other time => allowed other time ∨
      (other ∈ file :: done ∧ (time = moment.clock.wall ∨
        ∃ version, source.version? listed other = some version ∧ time = version.time)) := by
    intro other entry hentry
    exact (h.stamped other entry hentry).imp_right fun hdone => ⟨List.mem_cons_of_mem _ hdone.1, hdone.2⟩
  obtain ⟨hfile, hmodified, -⟩ := Source.version?_eq_some hversion
  cases hreindex : session.store.shouldReindex file version.time with
  | false =>
      rw [handleChange_settled hkind hmodified hreindex]
      refine ⟨false, rfl, h.blockMode_eq, h.initialized, ?_, hstamped⟩
      -- The entry is not before the version, so it was made for it or from it.
      unfold Store.shouldReindex at hreindex
      split at hreindex
      · next entry hentry =>
        have hle := of_decide_eq_false hreindex
        rcases h.stamped _ entry hentry with hallowed | ⟨hdone, -⟩
        · exact h.mixes.skip hsource.old_sole hsource.new_sole
            (hsource.current file version _ hversion hallowed (by omega))
        · exact h.mixes.again hdone
      · cases hreindex
  | true =>
      obtain ⟨houtcome, hstore, hservices⟩ := handleChange_reindexed moment hkind hmodified hreindex
        fun failure hread => hsource.regular.isUnreadable file version.time failure hmodified hread
      rw [h.blockMode_eq] at hstore
      refine ⟨true, houtcome, hservices ▸ h.blockMode_eq, ?_, ?_, ?_⟩
      · rw [hstore, Store.initialized_replaceFile]
        exact h.initialized
      · rw [hstore]
        apply h.mixes.replaceFile hsource.new_sole
        · exact fun _ hmem => Source.file_of_mem_factories hmem
        · exact fun _ hmem => Source.file_of_mem_traits hmem
        · intro name
          simp [Source.census, hfile]
        · intro key
          simp [Source.census, hfile]
      · rw [hstore]
        apply hstamped.replaceFile_of_allowed
        · exact fun _ hmem => Source.file_of_mem_factories hmem
        · exact fun _ hmem => Source.file_of_mem_traits hmem
        · exact Or.inr ⟨List.mem_cons_self, Or.inl rfl⟩
        · exact Or.inr ⟨List.mem_cons_self, Or.inr ⟨version, hversion, rfl⟩⟩

theorem Told.tell (hsource : Followable source mode listed old allowed) {moment : Moment}
    {change : RawText × ChangeKind} (hchange : change.2 = .deleted ↔ source.version? listed change.1 = none)
    (h : Told source moment mode listed old allowed done session) :
    (session.tell source moment.clock change .session).2 = .ok () ∧
      Told source moment mode listed old allowed (change.1 :: done)
        (session.tell source moment.clock change .session).1 := by
  obtain ⟨file, kind⟩ := change
  have htold : ∃ reindexed,
      (session.handleChange source moment.clock (.raw file) (.text kind.name)).2 = .ok reindexed ∧
      Told source moment mode listed old allowed (file :: done)
        (session.handleChange source moment.clock (.raw file) (.text kind.name)).1 := by
    cases hversion : source.version? listed file with
    | none =>
        obtain rfl : kind = .deleted := hchange.2 hversion
        exact ⟨true, h.tell_deleted hsource hversion⟩
    | some version =>
        refine h.tell_present hsource (fun hdeleted => ?_) hversion
        rw [hchange.1 hdeleted] at hversion
        cases hversion
  obtain ⟨reindexed, houtcome, htold⟩ := htold
  refine ⟨?_, htold⟩
  show ((session.handleChange source moment.clock (.raw file) (.text kind.name)).2.map fun _ => ()) = .ok ()
  rw [houtcome]
  rfl

theorem Told.tellAll (hsource : Followable source mode listed old allowed) {moment : Moment}
    {changes : List (RawText × ChangeKind)}
    (hchanges : ∀ change ∈ changes, change.2 = .deleted ↔ source.version? listed change.1 = none)
    (h : Told source moment mode listed old allowed done session) :
    (session.tellAll source moment.clock (changes.map fun change => (change, .session))).2 = .ok () ∧
      Told source moment mode listed old allowed ((changes.map Prod.fst).reverse ++ done)
        (session.tellAll source moment.clock (changes.map fun change => (change, .session))).1 := by
  induction changes generalizing session done with
  | nil => exact ⟨rfl, h⟩
  | cons change rest ih =>
      obtain ⟨houtcome, htold⟩ := h.tell hsource (hchanges change List.mem_cons_self)
      have hrest := ih (fun other hother => hchanges other (List.mem_cons_of_mem _ hother)) htold
      have hfirst : session.tell source moment.clock change .session =
          ((session.tell source moment.clock change .session).1, .ok ()) := by
        rw [← houtcome]
      rw [List.map_cons, Session.tellAll, hfirst, List.map_cons, List.reverse_cons, List.append_assoc]
      exact hrest

theorem sameBut_tellAll (source : Source) (clock : Clock) (calls : List ((RawText × ChangeKind) × Listener))
    (session : Session) :
    SameBut (session.tellAll source clock calls).1.store session (session.tellAll source clock calls).1 := by
  induction calls generalizing session with
  | nil => exact sameBut_self session
  | cons call rest ih =>
      obtain ⟨change, listener⟩ := call
      have htell : SameBut (session.tell source clock change listener).1.store session
          (session.tell source clock change listener).1 := by
        cases listener with
        | session => exact sameBut_handleChange ..
        | notes => exact ⟨rfl, rfl, rfl, rfl⟩
      unfold tellAll
      cases htold : session.tell source clock change listener with
      | mk told outcome =>
          rw [htold] at htell
          cases outcome with
          | ok _ => exact htell.trans (ih told)
          | error failure => exact htell

theorem runs_poll (source : Source) (clock : Clock) (session : Session) :
    (session.poll source clock).1.runs = session.runs := by
  unfold poll
  split
  · split
    · rfl
    · next started times htake =>
      have hstarted : started.runs = session.runs := by
        unfold takeSnapshot at htake
        cases hlist : source.list session.watch.patterns with
        | error failure =>
            rw [hlist] at htake
            cases htake
        | ok files =>
            rw [hlist] at htake
            cases htake
            rfl
      exact (sameBut_tellAll ..).runs_eq.trans hstarted
  · rfl

theorem deleted_iff_of_changeBetween {before now : OrderedMap RawText Int} {file : RawText} {kind : ChangeKind}
    (hchange : changeBetween before now file = some kind) : kind = .deleted ↔ now.get? file = none := by
  unfold changeBetween at hchange
  split at hchange
  · next hnow =>
    cases hchange
    simp [hnow]
  · next hnow =>
    split at hchange
    · cases hchange
      simp [hnow]
    · cases hchange
  · next hnow =>
    cases hchange
    simp [hnow]
  · cases hchange

theorem get?_snapshot_eq_version? (source : Source) (listed : List RawText) (file : RawText) :
    (snapshot source listed).1.get? file = (source.version? listed file).map Version.time := by
  rw [get?_snapshot, Source.version?]
  split
  · cases source.modified (.raw file) with
    | ok time => rfl
    | error failure => rfl
  · rfl

/-- **Polling brings the index up to date**, unless a file that the snapshot tells nothing about defines something
else than before. -/
theorem poll_follows (hsource : Followable source mode listed old allowed)
    (hlist : source.list session.watch.patterns = .ok listed) (hlisteners : session.watch.listeners = [.session])
    (hmode : session.services.blockMode = mode) (hinitialized : session.store.initialized = true)
    (hshows : session.store.Shows old) (hstamped : session.store.Stamped allowed)
    (hquiet : ∀ file, changeBetween session.watch.snapshot (snapshot source listed).1 file = none →
      old.AgreeOn (source.census mode listed) file) (moment : Moment) :
    let after := (session.poll source moment.clock).1
    (∃ found, (session.poll source moment.clock).2 = .ok found) ∧ after.store.initialized = true ∧
      after.store.Shows (source.census mode listed) ∧
      (after.store.Stamped fun file time => allowed file time ∨ time = moment.clock.wall ∨
        ∃ version, source.version? listed file = some version ∧ time = version.time) ∧
      after.pass = session.pass ∧ after.runs = session.runs ∧
      after.watch = { session.watch with snapshot := (snapshot source listed).1 } := by
  intro after
  let found := changes session.watch.snapshot (snapshot source listed).1
  let start : Session := { session.record (snapshot source listed).2 with
    watch := { session.watch with snapshot := (snapshot source listed).1 } }
  have hcalls : (found.flatMap fun change => session.watch.listeners.map fun listener => (change, listener)) =
      found.map fun change => (change, .session) := by
    rw [hlisteners]
    exact List.map_eq_flatMap.symm
  have hpoll : session.poll source moment.clock =
      ((start.tellAll source moment.clock (found.map fun change => (change, .session))).1,
        (start.tellAll source moment.clock (found.map fun change => (change, .session))).2.map fun _ => found) := by
    rw [poll_of_ok hsource.regular.tracksChanges hlist]
    simp only
    rw [hcalls]
  have hchanges : ∀ change ∈ found, change.2 = .deleted ↔ source.version? listed change.1 = none := by
    intro change hmem
    rw [deleted_iff_of_changeBetween (mem_changes_iff.1 hmem), get?_snapshot_eq_version?, Option.map_eq_none_iff]
  have hstart : Told source moment mode listed old allowed [] start := by
    refine ⟨hmode, hinitialized, hshows.mixes, ?_⟩
    intro file entry hentry
    exact Or.inl (hstamped file entry hentry)
  obtain ⟨houtcome, htold⟩ := hstart.tellAll hsource hchanges
  have hsame := sameBut_tellAll source moment.clock (found.map fun change => (change, .session)) start
  simp only [after, hpoll]
  rw [List.append_nil] at htold
  refine ⟨⟨found, by rw [houtcome]; rfl⟩, htold.initialized, htold.mixes.shows hsource.new_sole ?_, ?_, hsame.pass_eq,
    hsame.runs_eq, hsame.watch_eq⟩
  · intro file hfile
    apply hquiet
    by_contra hchanged
    obtain ⟨kind, hkind⟩ := Option.ne_none_iff_exists'.1 hchanged
    apply hfile
    rw [List.mem_reverse, List.mem_map]
    exact ⟨(file, kind), mem_changes_iff.2 hkind, rfl⟩
  · intro file entry hentry
    exact (htold.stamped file entry hentry).imp_right And.right

end Session

end FactoryIndex
