/-!
# Maps that remember their order

An `OrderedMap` lists its entries in the order in which their keys were first inserted. Writing to a key
that is present replaces the value and keeps its place; a key that was erased and is written again goes
to the end. No key occurs twice.
-/

namespace FactoryIndex

/-- A finite map that lists its entries in the order of insertion. -/
structure OrderedMap (κ α : Type) where
  entries : List (κ × α)
  nodup : (entries.map Prod.fst).Nodup
  deriving DecidableEq

namespace OrderedMap

variable {κ α : Type} [DecidableEq κ]

def put (key : κ) (value : α) : List (κ × α) → List (κ × α)
  | [] => [(key, value)]
  | (k, v) :: rest => if k = key then (k, value) :: rest else (k, v) :: put key value rest

theorem keys_put (key : κ) (value : α) (entries : List (κ × α)) :
    (put key value entries).map Prod.fst =
      if key ∈ entries.map Prod.fst then entries.map Prod.fst else entries.map Prod.fst ++ [key] := by
  induction entries with
  | nil => simp [put]
  | cons entry rest ih =>
    obtain ⟨k, v⟩ := entry
    by_cases hk : k = key
    · simp [put, hk]
    · have hk' : ¬ key = k := fun h => hk h.symm
      simp only [put, hk, if_false, List.map_cons, ih, List.mem_cons, hk', false_or]
      split <;> simp

theorem nodup_put (key : κ) (value : α) {entries : List (κ × α)} (h : (entries.map Prod.fst).Nodup) :
    ((put key value entries).map Prod.fst).Nodup := by
  rw [keys_put]
  split
  · exact h
  · next hmem =>
    rw [List.nodup_append]
    refine ⟨h, by simp, fun a ha b hb => ?_⟩
    rw [List.mem_singleton] at hb
    intro heq
    exact hmem (hb ▸ heq ▸ ha)

def empty : OrderedMap κ α := ⟨[], by simp⟩

instance : Inhabited (OrderedMap κ α) := ⟨empty⟩

def get? (m : OrderedMap κ α) (key : κ) : Option α :=
  (m.entries.find? fun entry => entry.1 = key).map Prod.snd

def contains (m : OrderedMap κ α) (key : κ) : Bool := (m.get? key).isSome

/-- Writes a value; a key that is present keeps its place. -/
def insert (m : OrderedMap κ α) (key : κ) (value : α) : OrderedMap κ α :=
  ⟨put key value m.entries, nodup_put key value m.nodup⟩

def filter (p : κ → α → Bool) (m : OrderedMap κ α) : OrderedMap κ α :=
  ⟨m.entries.filter fun entry => p entry.1 entry.2,
    m.nodup.sublist (List.filter_sublist.map Prod.fst)⟩

def erase (m : OrderedMap κ α) (key : κ) : OrderedMap κ α := m.filter fun k _ => k ≠ key

def mapValues {β : Type} (f : α → β) (m : OrderedMap κ α) : OrderedMap κ β :=
  ⟨m.entries.map fun entry => (entry.1, f entry.2), by
    have h : (fun entry : κ × α => Prod.fst (entry.1, f entry.2)) = Prod.fst := rfl
    simpa [List.map_map, Function.comp_def, h] using m.nodup⟩

def keys (m : OrderedMap κ α) : List κ := m.entries.map Prod.fst

def values (m : OrderedMap κ α) : List α := m.entries.map Prod.snd

def size (m : OrderedMap κ α) : Nat := m.entries.length

/-- The map made by writing the given entries one after the other. -/
def ofList (entries : List (κ × α)) : OrderedMap κ α :=
  entries.foldl (fun m entry => m.insert entry.1 entry.2) empty

/-! ### What the operations do to look-ups -/

@[simp]
theorem get?_empty (key : κ) : (empty : OrderedMap κ α).get? key = none := rfl

theorem find?_put (key other : κ) (value : α) (entries : List (κ × α)) :
    ((put key value entries).find? fun entry => entry.1 = other).map Prod.snd =
      if other = key then some value
      else (entries.find? fun entry => entry.1 = other).map Prod.snd := by
  induction entries with
  | nil => by_cases h : key = other <;> simp [put, h, eq_comm]
  | cons entry rest ih =>
    obtain ⟨k, v⟩ := entry
    by_cases hk : k = key
    · subst hk
      by_cases h : k = other
      · simp [put, h]
      · have h' : ¬ other = k := fun e => h e.symm
        simp [put, h, h']
    · by_cases h : k = other
      · have h' : ¬ other = key := fun e => hk (h.trans e)
        simp [put, h, h']
      · simp only [put, hk, if_false, List.find?_cons, h, decide_false]
        exact ih

/-- What no step changes is not changed by steps one after the other. -/
theorem view_foldl {σ β ν : Type} {step : σ → β → σ} (view : σ → ν)
    (hstep : ∀ state item, view (step state item) = view state) (items : List β) (state : σ) :
    view (items.foldl step state) = view state := by
  induction items generalizing state with
  | nil => rfl
  | cons item rest ih => exact (ih (step state item)).trans (hstep state item)

/-- After writes one after the other, the last one that concerns a look-up decides it. -/
theorem lookup_foldl {σ β : Type} {write : σ → β → σ} {concerns : β → Bool} {value : β → α} (look : σ → Option α)
    (hwrite : ∀ state item, look (write state item) = if concerns item then some (value item) else look state)
    (items : List β) (state : σ) :
    look (items.foldl write state) = ((items.findRev? concerns).map value).or (look state) := by
  induction items generalizing state with
  | nil => rfl
  | cons item rest ih =>
      rw [List.foldl_cons, ih, hwrite, List.findRev?]
      cases rest.findRev? concerns with
      | some last => rfl
      | none => cases concerns item <;> rfl

theorem get?_insert (m : OrderedMap κ α) (key other : κ) (value : α) :
    (m.insert key value).get? other = if other = key then some value else m.get? other :=
  find?_put key other value m.entries

theorem get?_erase (m : OrderedMap κ α) (key other : κ) :
    (m.erase key).get? other = if other = key then none else m.get? other := by
  unfold get? erase filter
  rw [List.find?_filter]
  by_cases h : other = key
  · subst h
    simp
  · have hsame : (fun entry : κ × α => !decide (entry.1 = key) && decide (entry.1 = other)) =
        fun entry => decide (entry.1 = other) := by
      funext entry
      by_cases he : entry.1 = other
      · simp [he, h]
      · simp [he]
    simp [h, hsame]

theorem get?_eq_some_iff (m : OrderedMap κ α) (key : κ) (value : α) :
    m.get? key = some value ↔ (key, value) ∈ m.entries := by
  obtain ⟨entries, nodup⟩ := m
  simp only [get?]
  induction entries with
  | nil => simp
  | cons entry rest ih =>
      obtain ⟨k, v⟩ := entry
      have hrest := ih (List.nodup_cons.1 nodup).2
      by_cases hk : k = key
      · subst hk
        have habsent : (k, value) ∉ rest := fun hmem =>
          (List.nodup_cons.1 nodup).1 (List.mem_map.2 ⟨(k, value), hmem, rfl⟩)
        simp [habsent, eq_comm]
      · have hk' : ¬ key = k := fun h => hk h.symm
        simpa [hk, hk'] using hrest

theorem get?_filter (m : OrderedMap κ α) (p : κ → α → Bool) (key : κ) :
    (m.filter p).get? key = (m.get? key).filter (p key) := by
  apply Option.ext
  intro value
  rw [get?_eq_some_iff, Option.filter_eq_some_iff, get?_eq_some_iff]
  simp [filter]

theorem get?_mapValues {β : Type} (f : α → β) (m : OrderedMap κ α) (key : κ) :
    (m.mapValues f).get? key = (m.get? key).map f := by
  simp only [get?, mapValues, List.find?_map, Option.map_map]
  rfl

theorem get?_eq_none_iff (m : OrderedMap κ α) (key : κ) : m.get? key = none ↔ key ∉ m.keys := by
  simp only [get?, keys, Option.map_eq_none_iff, List.find?_eq_none, List.mem_map, decide_eq_true_eq]
  constructor
  · rintro habsent ⟨entry, hentry, hkey⟩
    exact habsent entry hentry hkey
  · intro habsent entry hentry hkey
    exact habsent ⟨entry, hentry, hkey⟩

theorem put_of_not_mem {key : κ} {entries : List (κ × α)} (habsent : key ∉ entries.map Prod.fst)
    (value : α) : put key value entries = entries ++ [(key, value)] := by
  induction entries with
  | nil => rfl
  | cons entry rest ih =>
      obtain ⟨k, v⟩ := entry
      rw [List.map_cons, List.mem_cons, not_or] at habsent
      rw [put, if_neg fun h => habsent.1 h.symm, ih habsent.2, List.cons_append]

end OrderedMap

end FactoryIndex
