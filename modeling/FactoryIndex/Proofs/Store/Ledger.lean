import FactoryIndex.Proofs.Number.Rounding
import FactoryIndex.Proofs.Store.FirstWins

/-!
# A store is a ledger

A `Ledger` says what a store is for without saying how it works. It notes what was written under each key and
when, and when each file was last modified. It keeps no sets of names for its files, and nothing leaves it by
growing old: what has expired is only passed over.

A store differs from its ledger in what it still holds of the expired definitions, and nobody can tell. As long
as the clock does not go back and the time to live is not prolonged, what has expired stays so, and a
definition that was evicted would never have been found again. `Tracks` is that relation for one map, and
`Reflects` for a whole store.
-/

namespace FactoryIndex

/-! ### Books and ledgers -/

/-- What was last written under each key, and when. -/
abbrev Book (α : Type) := String → Option (Entry α)

namespace Book

variable {α : Type}

def write (book : Book α) (now : Int) (key : String) (value : α) : Book α :=
  fun other => if other = key then some ⟨value, now⟩ else book other

/-- The part of a book that satisfies a condition. -/
def keep (book : Book α) (kept : String → α → Bool) : Book α :=
  fun key => (book key).filter fun entry => kept key entry.value

/-- What was written under a key, unless more than the time to live has passed since then. -/
def live? (book : Book α) (ttl now : Int) (key : String) : Option α :=
  match book key with
  | some entry => if outlasts entry.written now ttl then none else some entry.value
  | none => none

end Book

/-- A plain store with times. -/
structure Ledger where
  ttl : Int
  factories : Book Factory
  traits : Book Trait
  modified : RawText → Option Int

namespace Ledger

def empty (ttl : Int) : Ledger := ⟨ttl, fun _ => none, fun _ => none, fun _ => none⟩

/-- The times of modification once something was written from a file: a file that was not known counts as
modified now. -/
def noted (ledger : Ledger) (clock : Clock) (file : RawText) : RawText → Option Int :=
  fun other => if other = file then some ((ledger.modified file).getD clock.wall) else ledger.modified other

def writeFactory (clock : Clock) (ledger : Ledger) (factory : Factory) : Ledger :=
  { ledger with
      factories := ledger.factories.write clock.monotonic factory.name factory
      modified := ledger.noted clock factory.location.file }

def writeTrait (clock : Clock) (ledger : Ledger) (t : Trait) : Ledger :=
  { ledger with
      traits := ledger.traits.write clock.monotonic t.key t
      modified := ledger.noted clock t.location.file }

def factory? (ledger : Ledger) (clock : Clock) (name : String) : Option Factory :=
  ledger.factories.live? ledger.ttl clock.monotonic name

def trait? (ledger : Ledger) (clock : Clock) (factory name : String) : Option Trait :=
  ledger.traits.live? ledger.ttl clock.monotonic (traitKey factory name)

def addFactory (clock : Clock) (ledger : Ledger) (factory : Factory) : Ledger :=
  if (ledger.factory? clock factory.name).isSome then ledger else ledger.writeFactory clock factory

def addTrait (clock : Clock) (ledger : Ledger) (t : Trait) : Ledger :=
  if (ledger.trait? clock t.factory t.name).isSome then ledger else ledger.writeTrait clock t

def removeFactory (ledger : Ledger) (name : String) : Ledger :=
  { ledger with
      factories := ledger.factories.keep fun key _ => key ≠ name
      traits := ledger.traits.keep fun _ t => t.factory ≠ name }

def removeFile (ledger : Ledger) (file : RawText) : Ledger :=
  { ledger with
      factories := ledger.factories.keep fun _ factory => factory.location.file ≠ file
      traits := ledger.traits.keep fun _ t => t.location.file ≠ file
      modified := fun other => if other = file then none else ledger.modified other }

def replaceFile (ledger : Ledger) (clock : Clock) (file : RawText) (factories : List Factory)
    (traits : List Trait) (modified : Option Int) : Ledger :=
  let ledger := traits.foldl (writeTrait clock) (factories.foldl (writeFactory clock) (ledger.removeFile file))
  { ledger with
      modified := fun other => if other = file then some (modified.getD clock.wall) else ledger.modified other }

def shouldReindex (ledger : Ledger) (file : RawText) (modified : Int) : Bool :=
  match ledger.modified file with
  | some time => decide (time < modified)
  | none => true

def setTtl (ledger : Ledger) (ttl : Value) : Ledger × Except Failure Unit :=
  match ttl.toInt with
  | .error fault => (ledger, .error (fault.failure ttl))
  | .ok n =>
    if fitsSeconds (Store.boundedTtl n) then ({ ledger with ttl := Store.boundedTtl n }, .ok ())
    else (ledger, .error .overflow)

/-- The ledger after a call, and the outcome of the call. A clean-up finds nothing to do. -/
def perform (clock : Clock) (ledger : Ledger) : Store.Operation → Ledger × Except Failure Store.Answer
  | .upsertFactory factory => (ledger.writeFactory clock factory, .ok .nothing)
  | .upsertTrait t => (ledger.writeTrait clock t, .ok .nothing)
  | .addFactory factory =>
      (ledger.addFactory clock factory, .ok (.flag (ledger.factory? clock factory.name).isNone))
  | .addTrait t => (ledger.addTrait clock t, .ok (.flag (ledger.trait? clock t.factory t.name).isNone))
  | .findFactory name => (ledger, .ok (.factory (ledger.factory? clock name)))
  | .findTrait factory name => (ledger, .ok (.trait (ledger.trait? clock factory name)))
  | .removeFactory name => (ledger.removeFactory name, .ok .nothing)
  | .removeFile file => (ledger.removeFile file, .ok .nothing)
  | .replaceFile file factories traits modified =>
      (ledger.replaceFile clock file factories traits modified, .ok .nothing)
  | .shouldReindex file modified => (ledger, .ok (.flag (ledger.shouldReindex file modified)))
  | .cleanup => (ledger, .ok (.count 0))
  | .clear => (empty ledger.ttl, .ok .nothing)
  | .setTtl ttl => ((ledger.setTtl ttl).1, (ledger.setTtl ttl).2.map fun _ => .nothing)
  | .setInitialized _ => (ledger, .ok .nothing)

end Ledger

/-! ### Maps and books -/

namespace ExpiringMap

variable {α : Type} {m m' : ExpiringMap α} {book : Book α} {now : Int}

/-- A map holds nothing but what another one does. -/
def PartOf (m' m : ExpiringMap α) : Prop :=
  m'.lifetime = m.lifetime ∧ ∀ key entry, m'.entries.get? key = some entry → m.entries.get? key = some entry

theorem PartOf.refl (m : ExpiringMap α) : m.PartOf m := ⟨rfl, fun _ _ h => h⟩

theorem PartOf.trans {m'' : ExpiringMap α} (h : m''.PartOf m') (h' : m'.PartOf m) : m''.PartOf m :=
  ⟨h.1.trans h'.1, fun key entry hentry => h'.2 key entry (h.2 key entry hentry)⟩

theorem partOf_erase (m : ExpiringMap α) (key : String) : (m.erase key).PartOf m := by
  refine ⟨rfl, fun other entry hentry => ?_⟩
  rw [erase, OrderedMap.get?_erase] at hentry
  split at hentry
  · cases hentry
  · exact hentry

theorem partOf_foldl_erase (keys : List String) (m : ExpiringMap α) : (keys.foldl erase m).PartOf m := by
  induction keys generalizing m with
  | nil => exact PartOf.refl m
  | cons key rest ih => exact (ih (m.erase key)).trans (partOf_erase m key)

theorem partOf_sweep (m : ExpiringMap α) (now : Int) : (m.sweep now).PartOf m := by
  refine ⟨rfl, fun key entry hentry => ?_⟩
  rw [sweep, OrderedMap.get?_filter, Option.filter_eq_some_iff] at hentry
  exact hentry.1

/-- In a part of a map, a value that is still there was written when it was. -/
theorem PartOf.get?_eq (h : m'.PartOf m) {key : String} (hpeek : m'.peek? key = m.peek? key) :
    m'.entries.get? key = m.entries.get? key := by
  cases hentry : m'.entries.get? key with
  | some entry => exact (h.2 key entry hentry).symm
  | none =>
      simp only [peek?, hentry, Option.map_none] at hpeek
      exact (Option.map_eq_none_iff.1 hpeek.symm).symm

theorem PartOf.expired_eq (h : m'.PartOf m) (entry : Entry α) : m'.expired now entry = m.expired now entry := by
  unfold expired
  rw [h.1]

/-- A map holds what its book says, except for some of what has expired. -/
def Tracks (now : Int) (book : Book α) (m : ExpiringMap α) : Prop :=
  ∀ key, m.entries.get? key = book key ∨
    (m.entries.get? key = none ∧ ∃ entry, book key = some entry ∧ m.expired now entry = true)

namespace Tracks

theorem live?_eq (h : m.Tracks now book) (key : String) : m.live? now key = book.live? m.lifetime now key := by
  unfold live? hasExpired peek? Book.live?
  rcases h key with heq | ⟨hnone, entry, hentry, hexpired⟩
  · rw [heq]
    cases book key with
    | none => rfl
    | some entry => rfl
  · unfold expired at hexpired
    simp [hnone, hentry, hexpired]

/-- What has expired stays so while time passes and the lifetime shrinks. -/
theorem later {now' : Int} (h : m.Tracks now book) (hentries : m'.entries = m.entries) (hpos : 0 < m'.lifetime)
    (hlifetime : m'.lifetime ≤ m.lifetime) (hnow : now ≤ now') : m'.Tracks now' book := by
  intro key
  rw [hentries]
  rcases h key with heq | ⟨hnone, entry, hentry, hexpired⟩
  · exact Or.inl heq
  · exact Or.inr ⟨hnone, entry, hentry, outlasts_mono hpos.le hnow hlifetime hexpired⟩

theorem put (h : m.Tracks now book) (written : Int) (key : String) (value : α) :
    (m.put written key value).Tracks now (book.write written key value) := by
  intro other
  unfold Book.write
  rw [ExpiringMap.put, OrderedMap.get?_insert]
  by_cases hother : other = key
  · exact Or.inl (by rw [if_pos hother, if_pos hother])
  · rw [if_neg hother, if_neg hother]
    exact h other

/-- To leave out expired entries shows nowhere in the book. -/
theorem shrink (h : m.Tracks now book) (hpart : m'.PartOf m)
    (hgone : ∀ key, m.hasExpired now key = false → m'.peek? key = m.peek? key) : m'.Tracks now book := by
  intro key
  cases hentry' : m'.entries.get? key with
  | some entry =>
      rcases h key with heq | ⟨hnone, -⟩
      · exact Or.inl (by rw [← heq, hpart.2 key entry hentry'])
      · rw [hpart.2 key entry hentry'] at hnone
        cases hnone
  | none =>
      rcases h key with heq | ⟨-, entry, hentry, hexpired⟩
      · cases hentry : m.entries.get? key with
        | none => exact Or.inl (by rw [← heq, hentry])
        | some entry =>
            refine Or.inr ⟨rfl, entry, by rw [← heq, hentry], (hpart.expired_eq entry).trans ?_⟩
            by_contra hlive
            have hnot : m.hasExpired now key = false := by
              rw [hasExpired, hentry]
              simpa using hlive
            have hkept := hpart.get?_eq (hgone key hnot)
            rw [hentry', hentry] at hkept
            cases hkept
      · exact Or.inr ⟨rfl, entry, hentry, (hpart.expired_eq entry).trans hexpired⟩

/-- To delete what does not satisfy a condition is to keep the part of the book that does. -/
theorem keep (h : m.Tracks now book) (hpart : m'.PartOf m) {kept : String → α → Bool}
    (hkept : ∀ key value, m.peek? key = some value →
      m'.peek? key = if kept key value then some value else none) : m'.Tracks now (book.keep kept) := by
  intro key
  have hnone : m.entries.get? key = none → m'.entries.get? key = none := by
    intro hnone
    cases hentry : m'.entries.get? key with
    | none => rfl
    | some entry => rw [← hnone, hpart.2 key entry hentry]
  unfold Book.keep
  rcases h key with heq | ⟨habsent, entry, hentry, hexpired⟩
  · left
    rw [← heq]
    cases hentry : m.entries.get? key with
    | none => exact hnone hentry
    | some entry =>
        have hpeek : m.peek? key = some entry.value := by rw [peek?, hentry]; rfl
        have hpeek' := hkept key entry.value hpeek
        cases hcase : kept key entry.value with
        | true =>
            rw [hcase, if_pos rfl, ← hpeek] at hpeek'
            rw [hpart.get?_eq hpeek', hentry, Option.filter_some, if_pos hcase]
        | false =>
            rw [hcase, if_neg Bool.false_ne_true] at hpeek'
            rw [Option.filter_some, if_neg (by simp [hcase])]
            exact Option.map_eq_none_iff.1 hpeek'
  · rw [hentry, Option.filter_some]
    by_cases hcase : kept key entry.value = true
    · rw [if_pos hcase]
      exact Or.inr ⟨hnone habsent, entry, rfl, (hpart.expired_eq entry).trans hexpired⟩
    · rw [if_neg hcase]
      exact Or.inl (hnone habsent)

end Tracks

end ExpiringMap

end FactoryIndex
