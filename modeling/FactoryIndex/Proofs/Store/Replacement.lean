import FactoryIndex.Proofs.Store.FirstWins

/-!
# Replacing what comes from a file

The definitions of a file that has changed take the place of all that came from it. A definition of another
file stays, unless the changed file now defines its key. The entry of every other file keeps the time at which
that file was last known to be modified, so that it is still found out when it has changed as well.
-/

namespace FactoryIndex.Store

/-! ### Definitions -/

section Definitions

variable {α : Type} {kind : Kind α}

/-- All that came from a file gives way to the given definitions, and so does what has their keys. -/
def Kind.Replaces (kind : Kind α) (file : RawText) (values : List α) (before after : Store) : Prop :=
  ∀ key value, kind.stored after key = some value ↔
    (value ∈ values ∧ kind.keyOf value = key) ∨
      (kind.stored before key = some value ∧ kind.fileOf value ≠ file ∧
        ∀ other ∈ values, kind.keyOf other ≠ key)

theorem stored_iff_of_drops_noted {before after : Store} {file : RawText} (h : kind.Attributed before)
    (hdrops : kind.Drops (kind.Noted before file) before after) (key : String) (value : α) :
    kind.stored after key = some value ↔ kind.stored before key = some value ∧ kind.fileOf value ≠ file := by
  constructor
  · intro hafter
    have hnot : ¬ kind.Noted before file key := by
      intro hnoted
      rw [hdrops.stored_of_gone key hnoted] at hafter
      cases hafter
    rw [hdrops.stored_of_not_gone key hnot] at hafter
    exact ⟨hafter, fun hfile => hnot ((h.noted_iff file key).2 ⟨value, hafter, hfile⟩)⟩
  · rintro ⟨hbefore, hfile⟩
    have hnot : ¬ kind.Noted before file key := by
      rw [h.noted_iff_of_stored hbefore]
      exact fun heq => hfile heq.symm
    rw [hdrops.stored_of_not_gone key hnot]
    exact hbefore

theorem stored_foldl_writes {step : Store → α → Store}
    (hwrites : ∀ store value, kind.Attributed store → kind.Writes value store (step store value))
    {values : List α} (hkeys : (values.map kind.keyOf).Nodup) {store : Store} (h : kind.Attributed store)
    (key : String) (value : α) :
    kind.stored (values.foldl step store) key = some value ↔
      (value ∈ values ∧ kind.keyOf value = key) ∨
        (kind.stored store key = some value ∧ ∀ other ∈ values, kind.keyOf other ≠ key) := by
  induction values generalizing store with
  | nil => simp
  | cons first rest ih =>
      rw [List.map_cons, List.nodup_cons] at hkeys
      rw [List.foldl_cons, ih hkeys.2 (h.writes (hwrites store first h)), (hwrites store first h).stored_eq]
      by_cases hkey : key = kind.keyOf first
      · subst hkey
        have hrest : ∀ other ∈ rest, kind.keyOf other ≠ kind.keyOf first := fun other hother heq =>
          hkeys.1 (heq ▸ List.mem_map_of_mem hother)
        simp only [if_true, Option.some.injEq, List.mem_cons, forall_eq_or_imp, ne_eq, not_true, false_and,
          and_false, or_false]
        constructor
        · rintro (⟨hmem, heq⟩ | ⟨rfl, -⟩)
          · exact absurd heq (hrest value hmem)
          · exact ⟨Or.inl rfl, rfl⟩
        · rintro ⟨rfl | hmem, heq⟩
          · exact Or.inr ⟨rfl, hrest⟩
          · exact absurd heq (hrest value hmem)
      · rw [if_neg hkey]
        simp only [List.mem_cons, forall_eq_or_imp]
        constructor
        · rintro (⟨hmem, heq⟩ | ⟨hstored, hrest⟩)
          · exact Or.inl ⟨Or.inr hmem, heq⟩
          · exact Or.inr ⟨hstored, Ne.symm hkey, hrest⟩
        · rintro (⟨rfl | hmem, heq⟩ | ⟨hstored, -, hrest⟩)
          · exact absurd heq.symm hkey
          · exact Or.inl ⟨hmem, heq⟩
          · exact Or.inr ⟨hstored, hrest⟩

theorem replaces_removeFile {store : Store} (h : Attributed store) (file : RawText) :
    Kind.factory.Replaces file [] store (store.removeFile file) ∧
      Kind.trait.Replaces file [] store (store.removeFile file) := by
  constructor
  · intro key value
    rw [stored_iff_of_drops_noted h.factories (drops_removeFile h.factories file)]
    simp
  · intro key value
    rw [stored_iff_of_drops_noted h.traits (drops_removeFile_traits h.traits file)]
    simp

theorem replaces_replaceFile {store : Store} (h : Attributed store) (clock : Clock) (file : RawText)
    {factories : List Factory} {traits : List Trait} (hnames : (factories.map Factory.name).Nodup)
    (hkeys : (traits.map Trait.key).Nodup) (modified : Option Int) :
    Kind.factory.Replaces file factories store (store.replaceFile clock file factories traits modified) ∧
      Kind.trait.Replaces file traits store (store.replaceFile clock file factories traits modified) := by
  have hremoved := h.removeFile file
  have hfactories := hremoved.foldl (Attributed.upsertFactory clock) factories
  have hkept : Kind.trait.Keeps (store.removeFile file)
      (factories.foldl (upsertFactory clock) (store.removeFile file)) :=
    Kind.Keeps.foldl (keeps_upsertFactory clock) factories _
  constructor
  · intro key value
    have htraits := Kind.Keeps.foldl (keeps_upsertTrait clock) traits
      (factories.foldl (upsertFactory clock) (store.removeFile file))
    have hstamp : Kind.factory.Keeps _ (store.replaceFile clock file factories traits modified) :=
      keeps_ensureFile _ file clock (FileEntry.stamp (modified.getD clock.wall)) fun _ => rfl
    rw [(htraits.trans hstamp).stored_eq,
      stored_foldl_writes (fun store factory hstore => writes_upsertFactory hstore clock factory) hnames
        hremoved.factories,
      stored_iff_of_drops_noted h.factories (drops_removeFile h.factories file), and_assoc]
  · intro key value
    have hstamp : Kind.trait.Keeps _ (store.replaceFile clock file factories traits modified) :=
      keeps_ensureFile _ file clock (FileEntry.stamp (modified.getD clock.wall)) fun _ => rfl
    rw [hstamp.stored_eq,
      stored_foldl_writes (fun store t hstore => writes_upsertTrait hstore clock t) hkeys hfactories.traits,
      hkept.stored_eq,
      stored_iff_of_drops_noted h.traits (drops_removeFile_traits h.traits file), and_assoc]

end Definitions

/-! ### Times of modification -/

/-- Every entry has a time of modification that is allowed for its file. -/
def Stamped (allowed : RawText → Int → Prop) (store : Store) : Prop :=
  ∀ file entry, store.files.get? file = some entry → allowed file entry.lastModified

namespace Stamped

variable {allowed : RawText → Int → Prop} {store : Store}

theorem of_files {after : Store} (h : Stamped allowed store) (hfiles : after.files = store.files) :
    Stamped allowed after := by
  intro file entry hentry
  rw [hfiles] at hentry
  exact h file entry hentry

theorem updateFile (h : Stamped allowed store) (file : RawText) {change : FileEntry → FileEntry}
    (hchange : ∀ entry, (change entry).lastModified = entry.lastModified) :
    Stamped allowed (store.updateFile file change) := by
  intro other entry hentry
  rw [get?_updateFile] at hentry
  split at hentry
  · next heq =>
    subst heq
    obtain ⟨old, hold, rfl⟩ := Option.map_eq_some_iff.1 hentry
    rw [hchange]
    exact h other old hold
  · exact h other entry hentry

theorem mapValues {after : Store} {change : FileEntry → FileEntry} (h : Stamped allowed store)
    (hfiles : after.files = store.files.mapValues change)
    (hchange : ∀ entry, (change entry).lastModified = entry.lastModified) : Stamped allowed after := by
  intro file entry hentry
  rw [hfiles, OrderedMap.get?_mapValues] at hentry
  obtain ⟨old, hold, rfl⟩ := Option.map_eq_some_iff.1 hentry
  rw [hchange]
  exact h file old hold

theorem ensureFile (h : Stamped allowed store) {clock : Clock} {file : RawText} (hnow : allowed file clock.wall)
    {change : FileEntry → FileEntry}
    (hchange : ∀ entry, allowed file entry.lastModified → allowed file (change entry).lastModified) :
    Stamped allowed (store.ensureFile clock file change) := by
  intro other entry hentry
  rw [get?_ensureFile] at hentry
  split at hentry
  · next heq =>
    subst heq
    cases hentry
    apply hchange
    cases hold : store.files.get? other with
    | none => exact hnow
    | some old => exact h other old hold
  · exact h other entry hentry

theorem release {α : Type} (kind : Kind α) (hdrop : ∀ key entry, (kind.drop key entry).lastModified = entry.lastModified)
    (h : Stamped allowed store) (value : α) : Stamped allowed (kind.release store value) := by
  unfold Kind.release
  split
  · split
    · exact h
    · exact h.updateFile _ (hdrop _)
  · exact h

theorem upsertFactory (h : Stamped allowed store) {clock : Clock} {factory : Factory}
    (hnow : allowed factory.location.file clock.wall) : Stamped allowed (store.upsertFactory clock factory) := by
  have hrelease := h.release .factory (fun _ _ => rfl) factory
  rw [Store.upsertFactory, releaseFactory_eq]
  exact ensureFile (hrelease.of_files rfl) hnow fun _ hold => hold

theorem upsertTrait (h : Stamped allowed store) {clock : Clock} {t : Trait}
    (hnow : allowed t.location.file clock.wall) : Stamped allowed (store.upsertTrait clock t) := by
  have hrelease := h.release .trait (fun _ _ => rfl) t
  rw [Store.upsertTrait, releaseTrait_eq]
  exact ensureFile (hrelease.of_files rfl) hnow fun _ hold => hold

theorem addFactory (h : Stamped allowed store) {clock : Clock} {factory : Factory}
    (hnow : allowed factory.location.file clock.wall) : Stamped allowed (store.addFactory clock factory) := by
  have htouch : Stamped allowed (store.touchFactory clock factory.name) := by
    unfold touchFactory
    split
    · exact h.mapValues rfl fun _ => rfl
    · exact h
  unfold Store.addFactory
  split
  · exact h
  · exact htouch.upsertFactory hnow

theorem addTrait (h : Stamped allowed store) {clock : Clock} {t : Trait}
    (hnow : allowed t.location.file clock.wall) : Stamped allowed (store.addTrait clock t) := by
  have htouch : Stamped allowed (store.touchTrait clock t.factory t.name) := by
    unfold touchTrait
    simp only
    split
    · exact h.mapValues rfl fun _ => rfl
    · exact h
  unfold Store.addTrait
  split
  · exact h
  · exact htouch.upsertTrait hnow

theorem foldl {β : Type} {step : Store → β → Store} {items : List β}
    (hstep : ∀ store, ∀ item ∈ items, Stamped allowed store → Stamped allowed (step store item))
    (h : Stamped allowed store) : Stamped allowed (items.foldl step store) := by
  induction items generalizing store with
  | nil => exact h
  | cons item rest ih =>
      refine ih (fun store item hitem => hstep store item (List.mem_cons_of_mem _ hitem)) ?_
      exact hstep store item List.mem_cons_self h

theorem removeFile (h : Stamped allowed store) (file : RawText) : Stamped allowed (store.removeFile file) := by
  unfold Store.removeFile
  split
  · intro other entry hentry
    simp only [OrderedMap.get?_erase] at hentry
    split at hentry
    · cases hentry
    · exact h other entry hentry
  · exact h

/-- To replace what comes from a file stamps the entry of that file only, at last with the time at which the file was
modified. -/
theorem replaceFile_of_allowed (h : Stamped allowed store) {clock : Clock} {file : RawText} {factories : List Factory}
    {traits : List Trait} (hfactories : ∀ factory ∈ factories, factory.location.file = file)
    (htraits : ∀ t ∈ traits, t.location.file = file) (hnow : allowed file clock.wall) {modified : Option Int}
    (hmodified : allowed file (modified.getD clock.wall)) :
    Stamped allowed (store.replaceFile clock file factories traits modified) := by
  have hwritten : Stamped allowed (factories.foldl (Store.upsertFactory clock) (store.removeFile file)) :=
    foldl (fun store factory hfactory hstore => hstore.upsertFactory (hfactories factory hfactory ▸ hnow))
      (h.removeFile file)
  have hfiled : Stamped allowed (traits.foldl (Store.upsertTrait clock)
      (factories.foldl (Store.upsertFactory clock) (store.removeFile file))) :=
    foldl (fun store t ht hstore => hstore.upsertTrait (htraits t ht ▸ hnow)) hwritten
  exact hfiled.ensureFile hnow fun _ _ => hmodified

theorem replaceFile (h : Stamped allowed store) (clock : Clock) {file : RawText} {factories : List Factory}
    {traits : List Trait} (hfactories : ∀ factory ∈ factories, factory.location.file = file)
    (htraits : ∀ t ∈ traits, t.location.file = file) (hfile : ∀ time, allowed file time)
    (modified : Option Int) : Stamped allowed (store.replaceFile clock file factories traits modified) :=
  h.replaceFile_of_allowed hfactories htraits (hfile _) (hfile _)

/-- Entries that are made while a store is filled are stamped with the time of day. -/
theorem fill (clock : Nat → Clock) (hclock : ∀ file n, allowed file (clock n).wall) (factories : List Factory)
    (traits : List Trait) (h : Stamped allowed store) : Stamped allowed (store.fill clock factories traits) := by
  refine foldl (fun store item _ hstore => ?_) (foldl (fun store item _ hstore => ?_) h)
  · exact hstore.addTrait (hclock _ item.2)
  · exact hstore.addFactory (hclock _ item.2)

theorem setInitialized (initialized : Bool) (h : Stamped allowed store) :
    Stamped allowed (store.setInitialized initialized) := h.of_files rfl

end Stamped

end FactoryIndex.Store
