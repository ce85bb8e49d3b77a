import FactoryIndex.Number.Seconds
import FactoryIndex.OrderedMap

/-!
# Maps whose entries expire

Every entry remembers when it was written, as the clock showed it. It has expired once more than the
lifetime of the map has passed since then. An expired entry stays in the map until it is looked up, swept,
or written anew. The time is handed to every operation that needs it.
-/

namespace FactoryIndex

/-- A value and the time at which it was written. -/
structure Entry (α : Type) where
  value : α
  written : Int
  deriving Repr, DecidableEq

/-- A map from texts whose entries live for `lifetime` milliseconds. -/
structure ExpiringMap (α : Type) where
  lifetime : Int
  entries : OrderedMap String (Entry α)

namespace ExpiringMap

variable {α : Type}

def empty (lifetime : Int) : ExpiringMap α := ⟨lifetime, .empty⟩

/-- Whether an entry has outlived the lifetime of the map. -/
def expired (m : ExpiringMap α) (now : Int) (entry : Entry α) : Bool :=
  outlasts entry.written now m.lifetime

/-- The number of entries, expired ones included. -/
def size (m : ExpiringMap α) : Nat := m.entries.size

/-- Whether a key has an entry, expired or not. -/
def contains (m : ExpiringMap α) (key : String) : Bool := m.entries.contains key

/-- The value under a key, expired or not. -/
def peek? (m : ExpiringMap α) (key : String) : Option α := (m.entries.get? key).map Entry.value

def hasExpired (m : ExpiringMap α) (now : Int) (key : String) : Bool :=
  (m.entries.get? key).any (m.expired now)

/-- The value under a key if its entry is live. -/
def live? (m : ExpiringMap α) (now : Int) (key : String) : Option α :=
  if m.hasExpired now key then none else m.peek? key

def put (m : ExpiringMap α) (now : Int) (key : String) (value : α) : ExpiringMap α :=
  { m with entries := m.entries.insert key ⟨value, now⟩ }

def erase (m : ExpiringMap α) (key : String) : ExpiringMap α :=
  { m with entries := m.entries.erase key }

/-- Removes a key if its entry has expired, as a look-up does. -/
def evict (m : ExpiringMap α) (now : Int) (key : String) : ExpiringMap α :=
  if m.hasExpired now key then m.erase key else m

def expiredKeys (m : ExpiringMap α) (now : Int) : List String :=
  (m.entries.entries.filter fun entry => m.expired now entry.2).map Prod.fst

def sweep (m : ExpiringMap α) (now : Int) : ExpiringMap α :=
  { m with entries := m.entries.filter fun _ entry => !m.expired now entry }

/-- The keys and values, expired ones included, in the order of the map. -/
def items (m : ExpiringMap α) : List (String × α) :=
  m.entries.entries.map fun entry => (entry.1, entry.2.value)

def clear (m : ExpiringMap α) : ExpiringMap α := { m with entries := .empty }

/-! ### What the operations do to look-ups -/

@[simp]
theorem peek?_empty (lifetime : Int) (key : String) :
    (empty lifetime : ExpiringMap α).peek? key = none := rfl

@[simp]
theorem peek?_clear (m : ExpiringMap α) (key : String) : m.clear.peek? key = none := rfl

@[simp]
theorem peek?_put (m : ExpiringMap α) (now : Int) (key other : String) (value : α) :
    (m.put now key value).peek? other = if other = key then some value else m.peek? other := by
  simp only [peek?, put, OrderedMap.get?_insert]
  split <;> rfl

@[simp]
theorem peek?_erase (m : ExpiringMap α) (key other : String) :
    (m.erase key).peek? other = if other = key then none else m.peek? other := by
  simp only [peek?, erase, OrderedMap.get?_erase]
  split <;> rfl

theorem contains_eq_isSome (m : ExpiringMap α) (key : String) : m.contains key = (m.peek? key).isSome := by
  rw [contains, peek?, OrderedMap.contains, Option.isSome_map]

theorem peek?_foldl_erase (m : ExpiringMap α) (keys : List String) (other : String) :
    (keys.foldl erase m).peek? other = if other ∈ keys then none else m.peek? other := by
  induction keys generalizing m with
  | nil => simp
  | cons key rest ih =>
      rw [List.foldl_cons, ih, peek?_erase]
      by_cases hrest : other ∈ rest
      · simp [hrest]
      · simp [hrest]

theorem peek?_sweep (m : ExpiringMap α) (now : Int) (key : String) :
    (m.sweep now).peek? key = m.live? now key := by
  cases hget : m.entries.get? key with
  | none => simp [peek?, sweep, live?, hasExpired, OrderedMap.get?_filter, hget]
  | some entry =>
      cases h : m.expired now entry <;>
        simp [peek?, sweep, live?, hasExpired, OrderedMap.get?_filter, Option.filter, hget, h]

theorem mem_items (m : ExpiringMap α) (key : String) (value : α) :
    (key, value) ∈ m.items ↔ m.peek? key = some value := by
  simp only [items, peek?, List.mem_map, Option.map_eq_some_iff, OrderedMap.get?_eq_some_iff]
  constructor
  · rintro ⟨⟨k, entry⟩, hmem, heq⟩
    obtain ⟨rfl, rfl⟩ := Prod.mk.inj heq
    exact ⟨entry, hmem, rfl⟩
  · rintro ⟨entry, hmem, rfl⟩
    exact ⟨(key, entry), hmem, rfl⟩

theorem mem_expiredKeys (m : ExpiringMap α) (now : Int) (key : String) :
    key ∈ m.expiredKeys now ↔ m.hasExpired now key = true := by
  simp only [expiredKeys, hasExpired, List.mem_map, List.mem_filter, Option.any_eq_true,
    OrderedMap.get?_eq_some_iff]
  constructor
  · rintro ⟨⟨k, entry⟩, ⟨hmem, hexpired⟩, rfl⟩
    exact ⟨entry, hmem, hexpired⟩
  · rintro ⟨entry, hmem, hexpired⟩
    exact ⟨(key, entry), ⟨hmem, hexpired⟩, rfl⟩

theorem items_put_of_peek?_eq_none {m : ExpiringMap α} {key : String} (habsent : m.peek? key = none)
    (now : Int) (value : α) : (m.put now key value).items = m.items ++ [(key, value)] := by
  have hkey : key ∉ m.entries.keys := by
    rw [← OrderedMap.get?_eq_none_iff]
    simpa [peek?] using habsent
  simp only [items, put, OrderedMap.insert]
  rw [OrderedMap.put_of_not_mem hkey, List.map_append, List.map_singleton]

end ExpiringMap

end FactoryIndex
