import FactoryIndex.Proofs.Store.Kind

/-!
# What the operations of a store do

For every operation of a store, what it does to factories and what it does to traits: it keeps them, it
writes one of them, or it drops those under some keys. These lemmas are all that later proofs know about an
operation.

Some operations rely on the map and the noted keys agreeing. To write a definition is to take its key away
from one file, that of its predecessor, and no other file must note it; to remove a file is to remove what it
notes, and nothing else must come from it.
-/

namespace FactoryIndex.Store

/-! ### Entries of files -/

section Files

variable {α : Type} {kind : Kind α} (store : Store) (file : RawText)

theorem get?_updateFile (change : FileEntry → FileEntry) (other : RawText) :
    (store.updateFile file change).files.get? other =
      if other = file then (store.files.get? file).map change else store.files.get? other := by
  unfold updateFile
  cases hentry : store.files.get? file with
  | none =>
      by_cases hother : other = file
      · simp [hother, hentry]
      · simp [hother]
  | some entry => simp [OrderedMap.get?_insert]

theorem get?_ensureFile (clock : Clock) (change : FileEntry → FileEntry) (other : RawText) :
    (store.ensureFile clock file change).files.get? other =
      if other = file then some (change ((store.files.get? file).getD { lastModified := clock.wall }))
      else store.files.get? other :=
  OrderedMap.get?_insert store.files file other _

theorem stored_updateFile (change : FileEntry → FileEntry) (key : String) :
    kind.stored (store.updateFile file change) key = kind.stored store key := by
  unfold updateFile Kind.stored
  split
  · rw [kind.map_files]
  · rfl

theorem stored_ensureFile (clock : Clock) (change : FileEntry → FileEntry) (key : String) :
    kind.stored (store.ensureFile clock file change) key = kind.stored store key := by
  unfold ensureFile Kind.stored
  rw [kind.map_files]

theorem noted_updateFile_drop (removed : String) (other : RawText) (key : String) :
    kind.Noted (store.updateFile file (kind.drop removed)) other key ↔
      kind.Noted store other key ∧ ¬ (other = file ∧ key = removed) := by
  unfold Kind.Noted
  rw [get?_updateFile]
  by_cases hother : other = file
  · subst hother
    cases hentry : store.files.get? other with
    | none => simp
    | some entry => simp [kind.names_drop]
  · simp [hother]

theorem noted_ensureFile_add (clock : Clock) (added : String) (other : RawText) (key : String) :
    kind.Noted (store.ensureFile clock file (kind.add added)) other key ↔
      (other = file ∧ key = added) ∨ kind.Noted store other key := by
  unfold Kind.Noted
  rw [get?_ensureFile]
  by_cases hother : other = file
  · subst hother
    cases hentry : store.files.get? other with
    | none => simp [kind.names_add, kind.names_new]
    | some entry => simp [kind.names_add]
  · simp [hother]

theorem keeps_updateFile (change : FileEntry → FileEntry)
    (hnames : ∀ entry, kind.names (change entry) = kind.names entry) :
    kind.Keeps store (store.updateFile file change) := by
  refine ⟨stored_updateFile store file change, fun other key => ?_⟩
  unfold Kind.Noted
  rw [get?_updateFile]
  by_cases hother : other = file
  · subst hother
    cases hentry : store.files.get? other with
    | none => simp
    | some entry => simp [hnames]
  · simp [hother]

theorem keeps_mapValues {before after : Store} (hmap : kind.map after = kind.map before)
    (change : FileEntry → FileEntry) (hfiles : after.files = before.files.mapValues change)
    (hnames : ∀ entry, kind.names (change entry) = kind.names entry) : kind.Keeps before after := by
  constructor
  · intro key
    rw [Kind.stored, Kind.stored, hmap]
  · intro file key
    rw [Kind.Noted, Kind.Noted, hfiles, OrderedMap.get?_mapValues]
    cases before.files.get? file with
    | none => simp
    | some entry => simp [hnames]

theorem keeps_ensureFile (clock : Clock) (change : FileEntry → FileEntry)
    (hnames : ∀ entry, kind.names (change entry) = kind.names entry) :
    kind.Keeps store (store.ensureFile clock file change) := by
  refine ⟨stored_ensureFile store file clock change, fun other key => ?_⟩
  unfold Kind.Noted
  rw [get?_ensureFile]
  by_cases hother : other = file
  · subst hother
    cases hentry : store.files.get? other with
    | none => simp [hnames, kind.names_new]
    | some entry => simp [hnames]
  · simp [hother]

end Files

/-! ### Writing -/

section Writing

variable {α : Type} {kind : Kind α} {store : Store}

/-- Makes way for a definition: if one of its key came from another file, that file loses it. -/
def Kind.release (kind : Kind α) (store : Store) (value : α) : Store :=
  match kind.stored store (kind.keyOf value) with
  | some previous =>
      if kind.fileOf previous = kind.fileOf value then store
      else store.updateFile (kind.fileOf previous) (kind.drop (kind.keyOf value))
  | none => store

/-- What no file shows by losing a key is not changed by making way. -/
theorem view_release {β : Type} (view : Store → β)
    (hview : ∀ store file key, view (store.updateFile file (kind.drop key)) = view store) (store : Store) (value : α) :
    view (kind.release store value) = view store := by
  unfold Kind.release
  split
  · split
    · rfl
    · exact hview ..
  · rfl

theorem stored_release (value : α) (key : String) :
    kind.stored (kind.release store value) key = kind.stored store key :=
  view_release (kind.stored · key) (fun store file _ => stored_updateFile store file _ key) store value

/-- Once way has been made, no other file notes the key: only the file of its predecessor could. -/
theorem noted_release_keyOf (h : kind.Attributed store) {value : α} {file : RawText}
    (hfile : kind.Noted (kind.release store value) file (kind.keyOf value)) : file = kind.fileOf value := by
  unfold Kind.release at hfile
  cases hprevious : kind.stored store (kind.keyOf value) with
  | none =>
      rw [hprevious] at hfile
      exact absurd hfile (h.not_noted_of_stored_eq_none hprevious file)
  | some previous =>
      simp only [hprevious] at hfile
      split at hfile
      · next hsame => exact ((h.noted_iff_of_stored hprevious file).1 hfile).trans hsame
      · rw [noted_updateFile_drop, h.noted_iff_of_stored hprevious] at hfile
        exact absurd ⟨hfile.1, rfl⟩ hfile.2

theorem noted_release_of_ne {value : α} {key : String} (hkey : key ≠ kind.keyOf value) (file : RawText) :
    kind.Noted (kind.release store value) file key ↔ kind.Noted store file key := by
  unfold Kind.release
  split
  · split
    · rfl
    · rw [noted_updateFile_drop]
      simp [hkey]
  · rfl

theorem writes_ensureFile (h : kind.Attributed store) (clock : Clock) (value : α) {put : Store}
    (hstored : ∀ key, kind.stored put key =
      if key = kind.keyOf value then some value else kind.stored (kind.release store value) key)
    (hfiles : put.files = (kind.release store value).files) :
    kind.Writes value store (put.ensureFile clock (kind.fileOf value) (kind.add (kind.keyOf value))) := by
  have hput : ∀ file key, kind.Noted put file key ↔ kind.Noted (kind.release store value) file key := by
    intro file key
    unfold Kind.Noted
    rw [hfiles]
  constructor
  · intro key
    rw [stored_ensureFile, hstored, stored_release]
  · intro file key
    rw [noted_ensureFile_add, hput]
    by_cases hkey : key = kind.keyOf value
    · subst hkey
      rw [if_pos rfl]
      constructor
      · rintro (⟨hfile, -⟩ | hfile)
        · exact hfile
        · exact noted_release_keyOf h hfile
      · exact fun hfile => Or.inl ⟨hfile, rfl⟩
    · rw [if_neg hkey, noted_release_of_ne hkey]
      simp [hkey]

theorem releaseFactory_eq (store : Store) (factory : Factory) :
    store.releaseFactory factory = Kind.factory.release store factory := by
  simp only [releaseFactory, Kind.release, Kind.stored, Kind.factory]
  cases store.factories.peek? factory.name <;> rfl

theorem releaseTrait_eq (store : Store) (t : Trait) : store.releaseTrait t = Kind.trait.release store t := by
  simp only [releaseTrait, Kind.release, Kind.stored, Kind.trait]
  cases store.traits.peek? t.key <;> rfl

theorem keeps_release {β : Type} {other : Kind β}
    (hdrop : ∀ key entry, other.names (kind.drop key entry) = other.names entry) (store : Store) (value : α) :
    other.Keeps store (kind.release store value) := by
  unfold Kind.release
  split
  · split
    · exact Kind.Keeps.refl store
    · exact keeps_updateFile store _ _ (hdrop _)
  · exact Kind.Keeps.refl store

theorem keeps_upsert {β : Type} (kind : Kind α) {other : Kind β}
    (hdrop : ∀ key entry, other.names (kind.drop key entry) = other.names entry)
    (hadd : ∀ key entry, other.names (kind.add key entry) = other.names entry) (clock : Clock) (store : Store) (value : α)
    {put : Store} (hput : other.Keeps (kind.release store value) put) :
    other.Keeps store (put.ensureFile clock (kind.fileOf value) (kind.add (kind.keyOf value))) :=
  (keeps_release hdrop store value).trans (hput.trans (keeps_ensureFile _ _ clock _ (hadd _)))

theorem writes_upsertFactory (h : Kind.factory.Attributed store) (clock : Clock) (factory : Factory) :
    Kind.factory.Writes factory store (store.upsertFactory clock factory) := by
  unfold upsertFactory
  rw [releaseFactory_eq]
  exact writes_ensureFile h clock factory
    (fun key => ExpiringMap.peek?_put _ clock.monotonic factory.name key factory) rfl

theorem writes_upsertTrait (h : Kind.trait.Attributed store) (clock : Clock) (t : Trait) :
    Kind.trait.Writes t store (store.upsertTrait clock t) := by
  unfold upsertTrait
  rw [releaseTrait_eq]
  exact writes_ensureFile h clock t
    (fun key => ExpiringMap.peek?_put _ clock.monotonic t.key key t) rfl

theorem keeps_upsertFactory (clock : Clock) (store : Store) (factory : Factory) :
    Kind.trait.Keeps store (store.upsertFactory clock factory) := by
  rw [upsertFactory, releaseFactory_eq]
  exact keeps_upsert .factory (fun _ _ => rfl) (fun _ _ => rfl) clock store factory (.of_eq (fun _ => rfl) rfl)

theorem keeps_upsertTrait (clock : Clock) (store : Store) (t : Trait) :
    Kind.factory.Keeps store (store.upsertTrait clock t) := by
  rw [upsertTrait, releaseTrait_eq]
  exact keeps_upsert .trait (fun _ _ => rfl) (fun _ _ => rfl) clock store t (.of_eq (fun _ => rfl) rfl)

end Writing

/-! ### Removing -/

section Removing

variable {α : Type} {kind : Kind α}

theorem noted_mapValues_drop {before after : Store} {removed : String}
    (hfiles : after.files = before.files.mapValues (kind.drop removed)) (file : RawText) (key : String) :
    kind.Noted after file key ↔ key ≠ removed ∧ kind.Noted before file key := by
  unfold Kind.Noted
  rw [hfiles, OrderedMap.get?_mapValues]
  cases before.files.get? file with
  | none => simp
  | some entry => simp [kind.names_drop, and_comm]

theorem stored_of_erase {before after : Store} {removed : String}
    (hmap : kind.map after = (kind.map before).erase removed) (key : String) :
    kind.stored after key = if key = removed then none else kind.stored before key := by
  rw [Kind.stored, hmap, ExpiringMap.peek?_erase, Kind.stored]

theorem drops_erase {before after : Store} {removed : String}
    (hmap : kind.map after = (kind.map before).erase removed)
    (hfiles : after.files = before.files.mapValues (kind.drop removed)) :
    kind.Drops (· = removed) before after := by
  refine ⟨fun key hkey => ?_, fun key hkey => ?_, noted_mapValues_drop hfiles⟩
  · rw [stored_of_erase hmap, if_pos hkey]
  · rw [stored_of_erase hmap, if_neg hkey]

theorem drops_updateFile {before erased : Store} {removed : String} {file : RawText}
    (h : kind.Attributed before)
    (hfile : ∀ value, kind.stored before removed = some value → kind.fileOf value = file)
    (hmap : kind.map erased = (kind.map before).erase removed) (hfiles : erased.files = before.files) :
    kind.Drops (· = removed) before (erased.updateFile file (kind.drop removed)) := by
  refine ⟨fun key hkey => ?_, fun key hkey => ?_, fun other key => ?_⟩
  · rw [stored_updateFile, stored_of_erase hmap, if_pos hkey]
  · rw [stored_updateFile, stored_of_erase hmap, if_neg hkey]
  · rw [noted_updateFile_drop, Kind.Noted, hfiles, ← Kind.Noted]
    constructor
    · rintro ⟨hnoted, hnot⟩
      refine ⟨?_, hnoted⟩
      rintro rfl
      obtain ⟨value, hvalue, hother⟩ := (h.noted_iff other key).1 hnoted
      exact hnot ⟨hother ▸ hfile value hvalue, rfl⟩
    · rintro ⟨hkey, hnoted⟩
      exact ⟨hnoted, fun heq => hkey heq.2⟩

theorem drops_eraseFile {before after : Store} {file : RawText} {entry : FileEntry}
    (h : kind.Attributed before) (hentry : before.files.get? file = some entry)
    (hmap : kind.map after = (kind.names entry).names.foldl ExpiringMap.erase (kind.map before))
    (hfiles : after.files = before.files.erase file) :
    kind.Drops (kind.Noted before file) before after := by
  have hnoted : ∀ key, kind.Noted before file key ↔ key ∈ (kind.names entry).names := by
    intro key
    unfold Kind.Noted
    rw [hentry]
    simp [Membership.mem]
  refine ⟨fun key hkey => ?_, fun key hkey => ?_, fun other key => ?_⟩
  · rw [Kind.stored, hmap, ExpiringMap.peek?_foldl_erase, if_pos ((hnoted key).1 hkey)]
  · rw [Kind.stored, hmap, ExpiringMap.peek?_foldl_erase, if_neg fun hmem => hkey ((hnoted key).2 hmem),
      Kind.stored]
  · rw [Kind.Noted, hfiles, OrderedMap.get?_erase]
    by_cases hother : other = file
    · subst hother
      simp
    · rw [if_neg hother, ← Kind.Noted]
      -- What another file notes comes from there, so this file does not note it.
      refine ⟨fun hkey => ⟨fun hfile => ?_, hkey⟩, And.right⟩
      obtain ⟨value, hvalue, hfrom⟩ := (h.noted_iff other key).1 hkey
      exact hother (hfrom.symm.trans ((h.noted_iff_of_stored hvalue file).1 hfile).symm)

end Removing

/-- Whether anything is dropped depends on whether a key has expired. -/
theorem drops_evict {α : Type} {kind : Kind α} {store erased : Store} {removed : String} {expired : Bool}
    (hmap : kind.map erased = (kind.map store).erase removed)
    (hfiles : erased.files = store.files.mapValues (kind.drop removed)) :
    kind.Drops (fun key => key = removed ∧ expired = true) store (if expired = true then erased else store) := by
  cases expired with
  | true => exact (drops_erase hmap hfiles).of_iff fun key => by simp
  | false => exact (Kind.Keeps.refl store).drops.of_iff fun key => by simp

theorem drops_touchFactory (clock : Clock) (store : Store) (name : String) :
    Kind.factory.Drops (fun key => key = name ∧ store.factories.hasExpired clock.monotonic name = true)
      store (store.touchFactory clock name) := drops_evict rfl rfl

theorem drops_touchTrait (clock : Clock) (store : Store) (factory name : String) :
    Kind.trait.Drops (fun key => key = traitKey factory name ∧
      store.traits.hasExpired clock.monotonic (traitKey factory name) = true)
      store (store.touchTrait clock factory name) := drops_evict rfl rfl

theorem keeps_touchFactory (clock : Clock) (store : Store) (name : String) :
    Kind.trait.Keeps store (store.touchFactory clock name) := by
  unfold touchFactory
  split
  · exact keeps_mapValues rfl _ rfl fun _ => rfl
  · exact Kind.Keeps.refl store

theorem keeps_touchTrait (clock : Clock) (store : Store) (factory name : String) :
    Kind.factory.Keeps store (store.touchTrait clock factory name) := by
  simp only [touchTrait]
  split
  · exact keeps_mapValues rfl _ rfl fun _ => rfl
  · exact Kind.Keeps.refl store

theorem drops_removeTrait {store : Store} (h : Kind.trait.Attributed store) {key : String} {t : Trait}
    (hstored : ∀ found, Kind.trait.stored store key = some found → found = t) :
    Kind.trait.Drops (· = key) store (store.removeTrait key t) :=
  drops_updateFile h (fun found hfound => by rw [hstored found hfound]; rfl) rfl rfl

theorem keeps_removeTrait (store : Store) (key : String) (t : Trait) :
    Kind.factory.Keeps store (store.removeTrait key t) := by
  have herase : Kind.factory.Keeps store { store with traits := store.traits.erase key } := .of_eq (fun _ => rfl) rfl
  exact herase.trans (keeps_updateFile _ _ (FileEntry.dropTrait key) fun _ => rfl)

theorem drops_foldl_removeTrait {store : Store} (h : Kind.trait.Attributed store)
    (items : List (String × Trait))
    (hitems : ∀ item ∈ items, ∀ found, Kind.trait.stored store item.1 = some found → found = item.2) :
    Kind.trait.Drops (fun key => ∃ item ∈ items, key = item.1) store
      (items.foldl (fun store item => store.removeTrait item.1 item.2) store) := by
  induction items generalizing store with
  | nil => exact (Kind.Keeps.refl store).drops.of_iff fun key => by simp
  | cons item rest ih =>
      have hfirst := drops_removeTrait h (hitems item (List.mem_cons_self ..))
      have hrest := ih (h.drops hfirst) fun other hother found hfound => by
        by_cases hkey : other.1 = item.1
        · rw [hfirst.stored_of_gone _ hkey] at hfound
          cases hfound
        · rw [hfirst.stored_of_not_gone _ hkey] at hfound
          exact hitems other (List.mem_cons_of_mem _ hother) found hfound
      rw [List.foldl_cons]
      exact (hfirst.trans hrest).of_iff fun key => by simp

theorem drops_removeFactoryAlone {store : Store} (h : Kind.factory.Attributed store) (name : String) :
    Kind.factory.Drops (· = name) store (store.removeFactoryAlone name) := by
  unfold removeFactoryAlone
  split
  · next factory hfound =>
    refine drops_updateFile h (fun value hvalue => ?_) rfl rfl
    rw [Option.some.inj (hvalue.symm.trans hfound)]
    rfl
  · next hnone =>
    refine ⟨fun key hkey => hkey ▸ hnone, fun _ _ => rfl, fun file key => ?_⟩
    refine ⟨fun hnoted => ⟨?_, hnoted⟩, And.right⟩
    rintro rfl
    exact h.not_noted_of_stored_eq_none hnone file hnoted

theorem keeps_removeFactoryAlone (store : Store) (name : String) :
    Kind.trait.Keeps store (store.removeFactoryAlone name) := by
  unfold removeFactoryAlone
  split
  · have herase : Kind.trait.Keeps store { store with factories := store.factories.erase name } :=
      .of_eq (fun _ => rfl) rfl
    exact herase.trans (keeps_updateFile _ _ (FileEntry.dropFactory name) fun _ => rfl)
  · exact Kind.Keeps.refl store

theorem drops_removeFactory {store : Store} (h : Kind.factory.Attributed store) (name : String) :
    Kind.factory.Drops (· = name) store (store.removeFactory name) := by
  have htraits := Kind.Keeps.foldl (fun store (item : String × Trait) => keeps_removeTrait store item.1 item.2)
    ((store.removeFactoryAlone name).traits.items.filter fun item => item.2.factory == name)
    (store.removeFactoryAlone name)
  exact ((drops_removeFactoryAlone h name).trans htraits.drops).of_iff fun key => by simp

theorem exists_mem_filter_items {α : Type} {m : ExpiringMap α} {p : α → Bool} {key : String} :
    (∃ item ∈ m.items.filter fun item => p item.2, item.1 = key) ↔
      ∃ value, m.peek? key = some value ∧ p value = true := by
  constructor
  · rintro ⟨⟨k, value⟩, hitem, rfl⟩
    obtain ⟨hmem, hp⟩ := List.mem_filter.1 hitem
    exact ⟨value, (ExpiringMap.mem_items _ _ _).1 hmem, hp⟩
  · rintro ⟨value, hstored, hp⟩
    exact ⟨(key, value), List.mem_filter.2 ⟨(ExpiringMap.mem_items _ _ _).2 hstored, hp⟩, rfl⟩

theorem drops_removeFactory_traits {store : Store} (h : Kind.trait.Attributed store) (name : String) :
    Kind.trait.Drops (fun key => ∃ t, Kind.trait.stored store key = some t ∧ t.factory = name) store
      (store.removeFactory name) := by
  have hkeeps := keeps_removeFactoryAlone store name
  have hdrops := drops_foldl_removeTrait (h.keeps hkeeps)
    ((store.removeFactoryAlone name).traits.items.filter fun item => item.2.factory == name)
    fun item hitem found hfound => by
      have hmem := (ExpiringMap.mem_items _ _ _).1 (List.mem_filter.1 hitem).1
      exact Option.some.inj (hfound.symm.trans hmem)
  refine (hkeeps.drops.trans hdrops).of_iff fun key => ?_
  simp only [false_or, ← hkeeps.stored_eq, eq_comm (a := key)]
  rw [exists_mem_filter_items (p := fun t : Trait => t.factory == name)]
  simp only [beq_iff_eq]
  rfl

theorem drops_removeFile {store : Store} (h : Kind.factory.Attributed store) (file : RawText) :
    Kind.factory.Drops (Kind.factory.Noted store file) store (store.removeFile file) := by
  unfold removeFile
  split
  · next entry hentry => exact drops_eraseFile h hentry rfl rfl
  · next hnone => exact (Kind.Keeps.refl store).drops.of_iff fun key => by simp [Kind.Noted, hnone]

theorem drops_removeFile_traits {store : Store} (h : Kind.trait.Attributed store) (file : RawText) :
    Kind.trait.Drops (Kind.trait.Noted store file) store (store.removeFile file) := by
  unfold removeFile
  split
  · next entry hentry => exact drops_eraseFile h hentry rfl rfl
  · next hnone => exact (Kind.Keeps.refl store).drops.of_iff fun key => by simp [Kind.Noted, hnone]

theorem keeps_forgetFactory (store : Store) (name : String) :
    Kind.trait.Keeps store (store.forgetFactory name) := keeps_mapValues rfl _ rfl fun _ => rfl

theorem keeps_forgetTrait (store : Store) (key : String) :
    Kind.factory.Keeps store (store.forgetTrait key) := keeps_mapValues rfl _ rfl fun _ => rfl

section Expiry

variable {α : Type} {kind : Kind α} (forget : Store → String → Store)
  (hmap : ∀ store key, kind.map (forget store key) = kind.map store)
  (hfiles : ∀ store key, (forget store key).files = store.files.mapValues (kind.drop key))

include hmap in
theorem stored_foldl_forget (keys : List String) (store : Store) (key : String) :
    kind.stored (keys.foldl forget store) key = kind.stored store key := by
  induction keys generalizing store with
  | nil => rfl
  | cons removed rest ih => rw [List.foldl_cons, ih, Kind.stored, hmap, Kind.stored]

include hfiles in
theorem noted_foldl_forget (keys : List String) (store : Store) (file : RawText) (key : String) :
    kind.Noted (keys.foldl forget store) file key ↔ key ∉ keys ∧ kind.Noted store file key := by
  induction keys generalizing store with
  | nil => simp
  | cons removed rest ih =>
      rw [List.foldl_cons, ih, noted_mapValues_drop (hfiles store removed), List.mem_cons, not_or]
      simp [and_assoc, and_left_comm]

include hmap hfiles in
/-- A sweep of the map, after which every file forgets the keys that were swept, drops what had expired. -/
theorem drops_sweep {before swept : Store} {now : Int}
    (hstored : ∀ key, kind.stored swept key = (kind.map before).live? now key)
    (hnoted : ∀ file key, kind.Noted swept file key ↔ kind.Noted before file key) :
    kind.Drops (fun key => (kind.map before).hasExpired now key = true) before
      (((kind.map before).expiredKeys now).foldl forget swept) := by
  refine ⟨fun key hkey => ?_, fun key hkey => ?_, fun file key => ?_⟩
  · rw [stored_foldl_forget forget hmap, hstored, ExpiringMap.live?, if_pos hkey]
  · rw [stored_foldl_forget forget hmap, hstored, ExpiringMap.live?, if_neg hkey, Kind.stored]
  · rw [noted_foldl_forget forget hfiles, ExpiringMap.mem_expiredKeys, hnoted]

end Expiry

theorem drops_cleanup (clock : Clock) (store : Store) :
    Kind.factory.Drops (fun name => store.factories.hasExpired clock.monotonic name = true) store
      (store.cleanup clock) := by
  have hsweep : Kind.factory.Drops (fun name => store.factories.hasExpired clock.monotonic name = true) store
      ((store.factories.expiredKeys clock.monotonic).foldl forgetFactory
        { store with
            factories := store.factories.sweep clock.monotonic
            traits := store.traits.sweep clock.monotonic }) :=
    drops_sweep forgetFactory (fun _ _ => rfl) (fun _ _ => rfl)
      (fun key => ExpiringMap.peek?_sweep store.factories clock.monotonic key) fun _ _ => Iff.rfl
  exact (hsweep.trans (Kind.Keeps.foldl keeps_forgetTrait _ _).drops).of_iff fun key => by simp

theorem drops_cleanup_traits (clock : Clock) (store : Store) :
    Kind.trait.Drops (fun key => store.traits.hasExpired clock.monotonic key = true) store
      (store.cleanup clock) := by
  have hkeeps := Kind.Keeps.foldl keeps_forgetFactory (store.factories.expiredKeys clock.monotonic)
    { store with
        factories := store.factories.sweep clock.monotonic
        traits := store.traits.sweep clock.monotonic }
  exact drops_sweep forgetTrait (fun _ _ => rfl) (fun _ _ => rfl)
    (fun key => (hkeeps.stored_eq key).trans
      (ExpiringMap.peek?_sweep store.traits clock.monotonic key)) hkeeps.noted_iff

end FactoryIndex.Store
