import FactoryIndex.Proofs.Store.Replacement

/-!
# What each file is noted for

A *census* says which factories and which traits every file defines. A store that was filled from a project shows its
census: the entries of files note just these names and keys. When files are looked at again, one after the other, the
store is on its way from one census to another. A file that was looked at is noted for what it defines now, and any
other one for what it defined before, as far as that has not been taken over.

A file may well define a name twice, as long as no other file defines it.
-/

namespace FactoryIndex

structure Census where
  factories : RawText → String → Prop
  traits : RawText → String → Prop

namespace Store

/-! ### One kind of definition -/

section

variable {α : Type} {kind : Kind α} {store before after : Store}

/-- All that was noted for a file gives way to the given keys, which are noted for no other file any more. -/
def Kind.Renotes (kind : Kind α) (file : RawText) (keys : String → Prop) (before after : Store) : Prop :=
  ∀ other key, kind.Noted after other key ↔
    (other = file ∧ keys key) ∨ (other ≠ file ∧ kind.Noted before other key ∧ ¬ keys key)

/-- Files that were looked at are noted for their new keys, and the others for those old ones that are not among
them. -/
def Kind.Mixes (kind : Kind α) (old new : RawText → String → Prop) (done : List RawText) (store : Store) : Prop :=
  ∀ file key, kind.Noted store file key ↔
    (file ∈ done ∧ new file key) ∨ (file ∉ done ∧ old file key ∧ ∀ other ∈ done, ¬ new other key)

theorem Kind.Attributed.file_unique (h : kind.Attributed store) {a b : RawText} {key : String}
    (ha : kind.Noted store a key) (hb : kind.Noted store b key) : a = b := by
  obtain ⟨value, hvalue, rfl⟩ := (h.noted_iff a key).1 ha
  exact ((h.noted_iff_of_stored hvalue b).1 hb).symm

theorem renotes_of_drops {file : RawText} (h : kind.Attributed before)
    (hdrops : kind.Drops (kind.Noted before file) before after) : kind.Renotes file (fun _ => False) before after := by
  intro other key
  rw [hdrops.noted_iff]
  simp only [and_false, not_false_eq_true, and_true, false_or]
  constructor
  · intro ⟨hnot, hnoted⟩
    exact ⟨fun heq => hnot (heq ▸ hnoted), hnoted⟩
  · intro ⟨hne, hnoted⟩
    exact ⟨fun hfile => hne (h.file_unique hnoted hfile), hnoted⟩

theorem noted_foldl_writes {step : Store → α → Store} {file : RawText}
    (hwrites : ∀ store value, kind.Attributed store → kind.Writes value store (step store value)) {values : List α}
    (hfile : ∀ value ∈ values, kind.fileOf value = file) (h : kind.Attributed store) (other : RawText) (key : String) :
    kind.Noted (values.foldl step store) other key ↔
      ((∃ value ∈ values, kind.keyOf value = key) ∧ other = file) ∨
        ((¬ ∃ value ∈ values, kind.keyOf value = key) ∧ kind.Noted store other key) := by
  induction values generalizing store with
  | nil => simp
  | cons first rest ih =>
      have hfirst := hwrites store first h
      rw [List.foldl_cons, ih (fun value hmem => hfile value (List.mem_cons_of_mem _ hmem)) (h.writes hfirst),
        hfirst.noted_iff, hfile first List.mem_cons_self]
      by_cases hkey : key = kind.keyOf first
      · subst hkey
        by_cases hrest : ∃ value ∈ rest, kind.keyOf value = kind.keyOf first
        · simp [hrest]
        · simp [hrest]
      · simp [hkey, Ne.symm hkey]

/-- A file loses what it was noted for, and then definitions of it are written. -/
theorem Kind.Renotes.writes {middle : Store} {file : RawText} {keys : String → Prop}
    (hdrops : kind.Renotes file (fun _ => False) before middle)
    (hwrites : ∀ other key, kind.Noted after other key ↔
      (keys key ∧ other = file) ∨ (¬ keys key ∧ kind.Noted middle other key)) :
    kind.Renotes file keys before after := by
  intro other key
  rw [hwrites, hdrops other key]
  simp only [and_false, not_false_eq_true, and_true, false_or]
  rw [and_comm (a := keys key), and_left_comm, and_comm (a := ¬ keys key)]

namespace Kind.Mixes

variable {old new : RawText → String → Prop} {done : List RawText}

theorem start (h : ∀ file key, kind.Noted store file key ↔ old file key) : kind.Mixes old new [] store := by
  intro file key
  rw [h file key]
  simp

variable (hnew : ∀ a b key, new a key → new b key → a = b)

include hnew

theorem renote (h : kind.Mixes old new done before) {file : RawText}
    (hrenotes : kind.Renotes file (new file) before after) :
    kind.Mixes old new (file :: done) after := by
  intro other key
  rw [hrenotes other key, h other key]
  simp only [List.mem_cons, forall_eq_or_imp, not_or]
  by_cases heq : other = file
  · subst heq
    simp
  · by_cases hdone : other ∈ done
    · -- The keys of a file that was looked at before are no keys of this one.
      have hfree : new other key → ¬ new file key := fun hother hfile => heq (hnew other file key hother hfile)
      simp only [heq, hdone, ne_eq, false_and, true_and, not_true_eq_false, and_false, or_false, or_true, false_or,
        not_false_eq_true]
      exact ⟨fun hboth => hboth.1, fun hother => ⟨hother, hfree hother⟩⟩
    · simp only [heq, hdone, ne_eq, false_and, true_and, or_false, false_or, not_false_eq_true, and_assoc]
      refine and_congr_right fun _ => ?_
      exact and_comm

/-- A file that defines what it did before need not be looked at. -/
theorem skip (hold : ∀ a b key, old a key → old b key → a = b) (h : kind.Mixes old new done store) {file : RawText}
    (hsame : ∀ key, old file key ↔ new file key) : kind.Mixes old new (file :: done) store := by
  intro other key
  rw [h other key]
  simp only [List.mem_cons, forall_eq_or_imp, not_or]
  by_cases heq : other = file
  · subst heq
    by_cases hdone : other ∈ done
    · simp [hdone]
    · simp only [hdone, false_and, not_false_eq_true, true_and, false_or, or_false, not_true_eq_false, hsame key]
      constructor
      · intro hboth
        exact hboth.1
      · intro hother
        refine ⟨hother, fun rival hrival hrivals => hdone ?_⟩
        exact hnew other rival key hother hrivals ▸ hrival
  · simp only [heq, false_or, not_false_eq_true, true_and]
    have hfree : old other key → ¬ new file key := fun hother hfile =>
      heq (hold other file key hother ((hsame key).2 hfile))
    constructor
    · intro hnoted
      exact hnoted.imp_right fun ⟨hnot, hother, hrivals⟩ => ⟨hnot, hother, hfree hother, hrivals⟩
    · intro hnoted
      exact hnoted.imp_right fun ⟨hnot, hother, _, hrivals⟩ => ⟨hnot, hother, hrivals⟩

theorem finish (h : kind.Mixes old new done store)
    (hkept : ∀ file, file ∉ done → ∀ key, old file key ↔ new file key) (file : RawText) (key : String) :
    kind.Noted store file key ↔ new file key := by
  rw [h file key]
  by_cases hdone : file ∈ done
  · simp [hdone]
  · simp only [hdone, false_and, not_false_eq_true, true_and, false_or, hkept file hdone key]
    constructor
    · intro hboth
      exact hboth.1
    · intro hfile
      refine ⟨hfile, fun rival hrival hrivals => hdone ?_⟩
      exact hnew file rival key hfile hrivals ▸ hrival

end Kind.Mixes

end

/-! ### Both kinds -/

/-- A store that shows a census. -/
structure Shows (census : Census) (store : Store) : Prop where
  attributed : store.Attributed
  factories : ∀ file name, Kind.factory.Noted store file name ↔ census.factories file name
  traits : ∀ file key, Kind.trait.Noted store file key ↔ census.traits file key

/-- A store on its way from one census to another, some files having been looked at. -/
structure Mixes (old new : Census) (done : List RawText) (store : Store) : Prop where
  attributed : store.Attributed
  factories : Kind.factory.Mixes old.factories new.factories done store
  traits : Kind.trait.Mixes old.traits new.traits done store

end Store

namespace Census

/-- No name and no key is defined in two files. -/
structure Sole (census : Census) : Prop where
  factories : ∀ a b name, census.factories a name → census.factories b name → a = b
  traits : ∀ a b key, census.traits a key → census.traits b key → a = b

structure AgreeOn (old new : Census) (file : RawText) : Prop where
  factories : ∀ name, old.factories file name ↔ new.factories file name
  traits : ∀ key, old.traits file key ↔ new.traits file key

end Census

namespace Store

variable {old new : Census} {done : List RawText} {store : Store} {file : RawText}

theorem Shows.congr (h : store.Shows old) (hsame : ∀ file, old.AgreeOn new file) : store.Shows new :=
  ⟨h.attributed, fun file name => (h.factories file name).trans ((hsame file).factories name),
    fun file key => (h.traits file key).trans ((hsame file).traits key)⟩

theorem Shows.mixes (h : store.Shows old) : store.Mixes old new [] :=
  ⟨h.attributed, .start h.factories, .start h.traits⟩

namespace Mixes

theorem removeFile (hnew : new.Sole) (h : store.Mixes old new done) (hfactories : ∀ name, ¬ new.factories file name)
    (htraits : ∀ key, ¬ new.traits file key) : (store.removeFile file).Mixes old new (file :: done) := by
  have hnames : new.factories file = fun _ => False := funext fun name => eq_false (hfactories name)
  have hkeys : new.traits file = fun _ => False := funext fun key => eq_false (htraits key)
  refine ⟨h.attributed.removeFile file, h.factories.renote hnew.factories ?_, h.traits.renote hnew.traits ?_⟩
  · rw [hnames]
    exact renotes_of_drops h.attributed.factories (drops_removeFile h.attributed.factories file)
  · rw [hkeys]
    exact renotes_of_drops h.attributed.traits (drops_removeFile_traits h.attributed.traits file)

theorem replaceFile (hnew : new.Sole) (h : store.Mixes old new done) (clock : Clock) {factories : List Factory}
    {traits : List Trait} (hfactories : ∀ factory ∈ factories, factory.location.file = file)
    (htraits : ∀ t ∈ traits, t.location.file = file)
    (hnames : ∀ name, new.factories file name ↔ ∃ factory ∈ factories, factory.name = name)
    (hkeys : ∀ key, new.traits file key ↔ ∃ t ∈ traits, t.key = key) (modified : Option Int) :
    (store.replaceFile clock file factories traits modified).Mixes old new (file :: done) := by
  have hremoved := h.attributed.removeFile file
  have hfiled := hremoved.foldl (Attributed.upsertFactory clock) factories
  refine ⟨h.attributed.replaceFile clock file factories traits modified, h.factories.renote hnew.factories ?_,
    h.traits.renote hnew.traits ?_⟩
  · have htraits := Kind.Keeps.foldl (keeps_upsertTrait clock) traits
      (factories.foldl (upsertFactory clock) (store.removeFile file))
    have hstamp : Kind.factory.Keeps _ (store.replaceFile clock file factories traits modified) :=
      keeps_ensureFile _ file clock (FileEntry.stamp (modified.getD clock.wall)) fun _ => rfl
    apply (renotes_of_drops h.attributed.factories (drops_removeFile h.attributed.factories file)).writes
    intro other name
    rw [hnames, (htraits.trans hstamp).noted_iff]
    exact noted_foldl_writes (fun store factory hstore => writes_upsertFactory hstore clock factory) hfactories
      hremoved.factories other name
  · have hkept : Kind.trait.Keeps (store.removeFile file)
        (factories.foldl (upsertFactory clock) (store.removeFile file)) :=
      Kind.Keeps.foldl (keeps_upsertFactory clock) factories _
    have hstamp : Kind.trait.Keeps _ (store.replaceFile clock file factories traits modified) :=
      keeps_ensureFile _ file clock (FileEntry.stamp (modified.getD clock.wall)) fun _ => rfl
    apply (renotes_of_drops h.attributed.traits (drops_removeFile_traits h.attributed.traits file)).writes
    intro other key
    rw [hkeys, hstamp.noted_iff, ← hkept.noted_iff]
    exact noted_foldl_writes (fun store t hstore => writes_upsertTrait hstore clock t) htraits hfiled.traits other key

theorem skip (hold : old.Sole) (hnew : new.Sole) (h : store.Mixes old new done) (hsame : old.AgreeOn new file) :
    store.Mixes old new (file :: done) :=
  ⟨h.attributed, h.factories.skip hnew.factories hold.factories hsame.factories,
    h.traits.skip hnew.traits hold.traits hsame.traits⟩

theorem again (h : store.Mixes old new done) (hfile : file ∈ done) : store.Mixes old new (file :: done) := by
  have hmem : ∀ other, other ∈ file :: done ↔ other ∈ done := by
    intro other
    rw [List.mem_cons, or_iff_right_of_imp fun heq => heq ▸ hfile]
  refine ⟨h.attributed, fun other name => ?_, fun other key => ?_⟩
  · simp only [hmem]
    exact h.factories other name
  · simp only [hmem]
    exact h.traits other key

theorem shows (hnew : new.Sole) (h : store.Mixes old new done) (hkept : ∀ file, file ∉ done → old.AgreeOn new file) :
    store.Shows new :=
  ⟨h.attributed, h.factories.finish hnew.factories fun file hfile => (hkept file hfile).factories,
    h.traits.finish hnew.traits fun file hfile => (hkept file hfile).traits⟩

end Mixes

end Store

end FactoryIndex
