import FactoryIndex.Proofs.Store.Refinement

/-!
# A ledger of one moment

A pass writes everything at one moment into a store that it has emptied. In the ledger of such a store every
definition is the first of its key, and all of them were written at that moment, so they expire together: until then
a look-up finds the first definition of its key, and after that it finds nothing.
-/

namespace FactoryIndex

/-! ### Books -/

namespace Book

variable {α : Type} {book : Book α} {ttl now : Int}

def add (book : Book α) (ttl now : Int) (key : String) (value : α) : Book α :=
  if (book.live? ttl now key).isSome then book else book.write now key value

def ofValues (keyOf : α → String) (values : List α) (written : Int) : Book α :=
  fun key => (values.find? fun value => keyOf value = key).map fun value => ⟨value, written⟩

theorem live?_of_written (httl : 0 ≤ ttl) {key : String} {value : α} (hentry : book key = some ⟨value, now⟩) :
    book.live? ttl now key = some value := by
  rw [live?, hentry]
  simp only [not_outlasts_self httl, Bool.false_eq_true, if_false]

theorem live?_ofValues (keyOf : α → String) (values : List α) (written : Int) (key : String) :
    (ofValues keyOf values written).live? ttl now key =
      if outlasts written now ttl then none else values.find? fun value => keyOf value = key := by
  unfold live? ofValues
  cases values.find? fun value => keyOf value = key with
  | none => simp
  | some value => rfl

theorem foldl_add (httl : 0 ≤ ttl) (keyOf : α → String) (earlier values : List α) :
    values.foldl (fun book value => book.add ttl now (keyOf value) value) (ofValues keyOf earlier now) =
      ofValues keyOf (earlier ++ values) now := by
  induction values generalizing earlier with
  | nil => rw [List.foldl_nil, List.append_nil]
  | cons value rest ih =>
      have hadd : (ofValues keyOf earlier now).add ttl now (keyOf value) value =
          ofValues keyOf (earlier ++ [value]) now := by
        funext key
        unfold add
        cases hfound : earlier.find? fun other => keyOf other = keyOf value with
        | some found =>
            -- A value of this key came first, so the new one shows nowhere.
            have hentry : ofValues keyOf earlier now (keyOf value) = some ⟨found, now⟩ := by
              rw [ofValues, hfound, Option.map_some]
            rw [live?_of_written httl hentry, Option.isSome_some, if_pos rfl]
            simp only [ofValues, List.find?_append]
            by_cases hkey : keyOf value = key
            · rw [← hkey, hfound, Option.some_or]
            · rw [List.find?_cons, decide_eq_false hkey, List.find?_nil, Option.or_none]
        | none =>
            have hentry : ofValues keyOf earlier now (keyOf value) = none := by
              rw [ofValues, hfound, Option.map_none]
            rw [live?, hentry, if_neg (by simp)]
            simp only [write, ofValues, List.find?_append]
            by_cases hkey : key = keyOf value
            · rw [if_pos hkey, hkey, hfound, Option.none_or, List.find?_cons, decide_eq_true rfl]
              rfl
            · rw [if_neg hkey, List.find?_cons, decide_eq_false (Ne.symm hkey), List.find?_nil, Option.or_none]
      rw [List.foldl_cons, hadd, ih, List.append_assoc, List.singleton_append]

end Book

/-! ### Ledgers and stores -/

namespace Ledger

/-- Files definitions at one moment, each unless a live one has its key: factories, then traits. -/
def fill (clock : Clock) (factories : List Factory) (traits : List Trait) (ledger : Ledger) : Ledger :=
  traits.foldl (addTrait clock) (factories.foldl (addFactory clock) ledger)

theorem books_addFactory (clock : Clock) (ledger : Ledger) (factory : Factory) :
    (ledger.addFactory clock factory).factories =
        ledger.factories.add ledger.ttl clock.monotonic factory.name factory ∧
      (ledger.addFactory clock factory).traits = ledger.traits ∧
      (ledger.addFactory clock factory).ttl = ledger.ttl := by
  unfold addFactory Book.add factory?
  split <;> exact ⟨rfl, rfl, rfl⟩

theorem books_addTrait (clock : Clock) (ledger : Ledger) (t : Trait) :
    (ledger.addTrait clock t).traits = ledger.traits.add ledger.ttl clock.monotonic t.key t ∧
      (ledger.addTrait clock t).factories = ledger.factories ∧
      (ledger.addTrait clock t).ttl = ledger.ttl := by
  unfold addTrait Book.add trait? Trait.key
  split <;> exact ⟨rfl, rfl, rfl⟩

/-- Definitions are added to one book of a ledger, one after the other. -/
theorem books_foldl {α ν : Type} {step : Ledger → α → Ledger} {now : Int} {keyOf : α → String} (book : Ledger → Book α)
    (other : Ledger → ν)
    (hstep : ∀ ledger value, book (step ledger value) = (book ledger).add ledger.ttl now (keyOf value) value ∧
      other (step ledger value) = other ledger ∧ (step ledger value).ttl = ledger.ttl)
    (values : List α) (ledger : Ledger) :
    book (values.foldl step ledger) =
        values.foldl (fun book value => book.add ledger.ttl now (keyOf value) value) (book ledger) ∧
      other (values.foldl step ledger) = other ledger ∧ (values.foldl step ledger).ttl = ledger.ttl := by
  induction values generalizing ledger with
  | nil => exact ⟨rfl, rfl, rfl⟩
  | cons value rest ih =>
      obtain ⟨hbook, hother, httl⟩ := hstep ledger value
      obtain ⟨hbook', hother', httl'⟩ := ih (step ledger value)
      rw [hbook, httl] at hbook'
      exact ⟨hbook', hother'.trans hother, httl'.trans httl⟩

/-- A ledger that was empty has the first definitions of their keys, all written at the same time. -/
theorem books_fill_empty {ttl : Int} (httl : 0 ≤ ttl) (clock : Clock) (factories : List Factory)
    (traits : List Trait) :
    ((empty ttl).fill clock factories traits).factories = .ofValues Factory.name factories clock.monotonic ∧
      ((empty ttl).fill clock factories traits).traits = .ofValues Trait.key traits clock.monotonic ∧
      ((empty ttl).fill clock factories traits).ttl = ttl := by
  obtain ⟨hbook, htraits, httl'⟩ := books_foldl Ledger.factories Ledger.traits (books_addFactory clock) factories
    (empty ttl)
  obtain ⟨hbook', hfactories, httl''⟩ := books_foldl Ledger.traits Ledger.factories (books_addTrait clock) traits
    (factories.foldl (addFactory clock) (empty ttl))
  rw [htraits, httl'] at hbook'
  exact ⟨hfactories.trans (hbook.trans (Book.foldl_add httl Factory.name [] factories)),
    hbook'.trans (Book.foldl_add httl Trait.key [] traits), httl''.trans httl'⟩

end Ledger

namespace Store

theorem fill_const (clock : Clock) (factories : List Factory) (traits : List Trait) (store : Store) :
    store.fill (fun _ => clock) factories traits =
      traits.foldl (addTrait clock) (factories.foldl (addFactory clock) store) := by
  have hfactories : factories.zipIdx.foldl (fun store item => addFactory clock store item.1) store =
      factories.foldl (addFactory clock) store := by
    conv_rhs => rw [← List.zipIdx_map_fst 0 factories, List.foldl_map]
  have htraits : ∀ store, (traits.zipIdx factories.length).foldl (fun store item => addTrait clock store item.1) store =
      traits.foldl (addTrait clock) store := by
    intro store
    conv_rhs => rw [← List.zipIdx_map_fst factories.length traits, List.foldl_map]
  rw [← hfactories]
  exact htraits _

theorem Reflects.fill {clock : Clock} {ledger : Ledger} {store : Store} (h : Reflects clock.monotonic ledger store)
    (factories : List Factory) (traits : List Trait) :
    Reflects clock.monotonic (ledger.fill clock factories traits)
      (store.fill (fun _ => clock) factories traits) := by
  rw [fill_const]
  have hfactories := h.foldl (fun _ _ factory hstep => hstep.addFactory factory) factories
  exact hfactories.foldl (fun _ _ t hstep => hstep.addTrait t) traits

/-- What was filed just now has not expired. -/
theorem Reflects.expiredCount_eq_zero {ttl : Int} (httl : 0 < ttl) {clock : Clock} {factories : List Factory}
    {traits : List Trait} {store : Store}
    (h : Reflects clock.monotonic ((Ledger.empty ttl).fill clock factories traits) store) :
    store.expiredCount clock = 0 := by
  have hnone {α : Type} {keyOf : α → String} {values : List α} {m : ExpiringMap α} (hlifetime : m.lifetime = ttl)
      (htracks : m.Tracks clock.monotonic (.ofValues keyOf values clock.monotonic)) :
      m.expiredKeys clock.monotonic = [] := by
    rw [List.eq_nil_iff_forall_not_mem]
    intro key hkey
    rw [m.mem_expiredKeys, ExpiringMap.hasExpired, Option.any_eq_true] at hkey
    obtain ⟨entry, hentry, hexpired⟩ := hkey
    rcases htracks key with heq | ⟨habsent, -⟩
    · rw [hentry] at heq
      obtain ⟨value, -, rfl⟩ := Option.map_eq_some_iff.1 heq.symm
      rw [ExpiringMap.expired, hlifetime, not_outlasts_self httl.le] at hexpired
      cases hexpired
    · rw [hentry] at habsent
      cases habsent
  obtain ⟨hfactories, htraits, hledger⟩ := Ledger.books_fill_empty httl.le clock factories traits
  have hlifetimes := h.factories_lifetime
  have hlifetimes' := h.traits_lifetime
  have hbook := h.factories
  have hbook' := h.traits
  rw [hledger] at hlifetimes hlifetimes'
  rw [hfactories] at hbook
  rw [htraits] at hbook'
  rw [expiredCount, hnone hlifetimes hbook, hnone hlifetimes' hbook', List.length_nil]

end Store

end FactoryIndex
