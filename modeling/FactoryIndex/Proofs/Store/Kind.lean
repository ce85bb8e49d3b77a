import FactoryIndex.Store.Basic

/-!
# Kinds of definitions

A store keeps each definition twice: under its key, and as a key noted for the file it comes from. Factories
and traits are treated alike, so what is said here is said of both at once: a `Kind` names the map, the noted
keys and the origin of one sort of definition. Every operation does one of three things to a kind. It keeps
it, it writes one definition, or it drops the definitions under some keys. `Attributed` says that the map and
the noted keys agree, and each of the three carries that on.
-/

namespace FactoryIndex.Store

/-- A sort of definition: where it is stored, which keys of it an entry notes, how these change, and what
file and key a definition has. The map of a kind does not depend on the entries of files. -/
structure Kind (α : Type) where
  map : Store → ExpiringMap α
  names : FileEntry → NameSet
  add : String → FileEntry → FileEntry
  drop : String → FileEntry → FileEntry
  fileOf : α → RawText
  keyOf : α → String
  map_files : ∀ (store : Store) files, map { store with files := files } = map store := by intros; rfl
  names_new : ∀ modified, names { lastModified := modified } = .empty := by intros; rfl
  names_add : ∀ key entry, names (add key entry) = (names entry).insert key := by intros; rfl
  names_drop : ∀ key entry, names (drop key entry) = (names entry).erase key := by intros; rfl

def Kind.factory : Kind Factory where
  map := Store.factories
  names := FileEntry.factories
  add := FileEntry.addFactory
  drop := FileEntry.dropFactory
  fileOf factory := factory.location.file
  keyOf := Factory.name

def Kind.trait : Kind Trait where
  map := Store.traits
  names := FileEntry.traits
  add := FileEntry.addTrait
  drop := FileEntry.dropTrait
  fileOf t := t.location.file
  keyOf := Trait.key

namespace Kind

variable {α : Type} (kind : Kind α)

/-- What is stored under a key, expired or not. -/
def stored (store : Store) (key : String) : Option α := (kind.map store).peek? key

def Noted (store : Store) (file : RawText) (key : String) : Prop :=
  ∃ entry, store.files.get? file = some entry ∧ key ∈ kind.names entry

/-- The entries of files note exactly what the map holds, and the map holds everything under its own key. -/
structure Attributed (store : Store) : Prop where
  noted_iff : ∀ file key,
    kind.Noted store file key ↔ ∃ value, kind.stored store key = some value ∧ kind.fileOf value = file
  keyOf_stored : ∀ key value, kind.stored store key = some value → kind.keyOf value = key

/-! ### What an operation may do to a kind -/

structure Keeps (before after : Store) : Prop where
  stored_eq : ∀ key, kind.stored after key = kind.stored before key
  noted_iff : ∀ file key, kind.Noted after file key ↔ kind.Noted before file key

/-- One definition is written, and its key is noted for its file only. -/
structure Writes (value : α) (before after : Store) : Prop where
  stored_eq : ∀ key,
    kind.stored after key = if key = kind.keyOf value then some value else kind.stored before key
  noted_iff : ∀ file key, kind.Noted after file key ↔
    if key = kind.keyOf value then file = kind.fileOf value else kind.Noted before file key

/-- The definitions under some keys go away. -/
structure Drops (gone : String → Prop) (before after : Store) : Prop where
  stored_of_gone : ∀ key, gone key → kind.stored after key = none
  stored_of_not_gone : ∀ key, ¬ gone key → kind.stored after key = kind.stored before key
  noted_iff : ∀ file key, kind.Noted after file key ↔ ¬ gone key ∧ kind.Noted before file key

variable {kind} {before middle after : Store}

theorem Keeps.refl (store : Store) : kind.Keeps store store := ⟨fun _ => rfl, fun _ _ => Iff.rfl⟩

theorem Keeps.of_eq (hstored : ∀ key, kind.stored after key = kind.stored before key)
    (hfiles : after.files = before.files) : kind.Keeps before after := by
  refine ⟨hstored, fun file key => ?_⟩
  rw [Noted, Noted, hfiles]

theorem Keeps.trans (hleft : kind.Keeps before middle) (hright : kind.Keeps middle after) :
    kind.Keeps before after :=
  ⟨fun key => (hright.stored_eq key).trans (hleft.stored_eq key),
    fun file key => (hright.noted_iff file key).trans (hleft.noted_iff file key)⟩

theorem Keeps.foldl {β : Type} {step : Store → β → Store} (hstep : ∀ store item, kind.Keeps store (step store item))
    (items : List β) (store : Store) : kind.Keeps store (items.foldl step store) := by
  induction items generalizing store with
  | nil => exact Keeps.refl store
  | cons item rest ih => exact (hstep store item).trans (ih (step store item))

theorem Drops.trans {gone gone' : String → Prop} (hleft : kind.Drops gone before middle)
    (hright : kind.Drops gone' middle after) : kind.Drops (fun key => gone key ∨ gone' key) before after := by
  constructor
  · intro key hgone
    by_cases hlater : gone' key
    · exact hright.stored_of_gone key hlater
    · rw [hright.stored_of_not_gone key hlater]
      exact hleft.stored_of_gone key (hgone.resolve_right hlater)
  · intro key hnot
    rw [hright.stored_of_not_gone key fun h => hnot (Or.inr h),
      hleft.stored_of_not_gone key fun h => hnot (Or.inl h)]
  · intro file key
    rw [hright.noted_iff, hleft.noted_iff, not_or, and_assoc, and_left_comm]

theorem Drops.of_iff {gone gone' : String → Prop} (hdrops : kind.Drops gone before after)
    (hiff : ∀ key, gone' key ↔ gone key) : kind.Drops gone' before after := by
  have heq : gone' = gone := funext fun key => propext (hiff key)
  exact heq ▸ hdrops

theorem Keeps.drops (hkeeps : kind.Keeps before after) : kind.Drops (fun _ => False) before after := by
  refine ⟨fun _ h => h.elim, fun key _ => hkeeps.stored_eq key, fun file key => ?_⟩
  rw [hkeeps.noted_iff]
  simp

/-! ### Each of these keeps the agreement -/

namespace Attributed

theorem keeps (h : kind.Attributed before) (hkeeps : kind.Keeps before after) : kind.Attributed after := by
  constructor
  · intro file key
    rw [hkeeps.noted_iff, hkeeps.stored_eq]
    exact h.noted_iff file key
  · intro key value hvalue
    rw [hkeeps.stored_eq] at hvalue
    exact h.keyOf_stored key value hvalue

theorem writes {value : α} (h : kind.Attributed before) (hwrites : kind.Writes value before after) :
    kind.Attributed after := by
  constructor
  · intro file key
    rw [hwrites.noted_iff, hwrites.stored_eq]
    by_cases hkey : key = kind.keyOf value
    · simp [hkey, eq_comm]
    · simpa [hkey] using h.noted_iff file key
  · intro key other hother
    rw [hwrites.stored_eq] at hother
    by_cases hkey : key = kind.keyOf value
    · rw [if_pos hkey] at hother
      rw [← Option.some.inj hother, hkey]
    · rw [if_neg hkey] at hother
      exact h.keyOf_stored key other hother

theorem drops {gone : String → Prop} (h : kind.Attributed before) (hdrops : kind.Drops gone before after) :
    kind.Attributed after := by
  constructor
  · intro file key
    rw [hdrops.noted_iff]
    by_cases hgone : gone key
    · simp [hgone, hdrops.stored_of_gone key hgone]
    · rw [hdrops.stored_of_not_gone key hgone]
      simpa [hgone] using h.noted_iff file key
  · intro key value hvalue
    by_cases hgone : gone key
    · rw [hdrops.stored_of_gone key hgone] at hvalue
      cases hvalue
    · rw [hdrops.stored_of_not_gone key hgone] at hvalue
      exact h.keyOf_stored key value hvalue

/-- A key is noted for the file of what is stored under it, and for no other file. -/
theorem noted_iff_of_stored (h : kind.Attributed before) {key : String} {value : α}
    (hvalue : kind.stored before key = some value) (file : RawText) :
    kind.Noted before file key ↔ file = kind.fileOf value := by
  rw [h.noted_iff, hvalue]
  simp [eq_comm]

theorem not_noted_of_stored_eq_none (h : kind.Attributed before) {key : String}
    (hnone : kind.stored before key = none) (file : RawText) : ¬ kind.Noted before file key := by
  rw [h.noted_iff, hnone]
  simp

end Attributed

end Kind

end FactoryIndex.Store
