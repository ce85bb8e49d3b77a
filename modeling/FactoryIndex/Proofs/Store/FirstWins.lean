import FactoryIndex.Proofs.Number.Rounding
import FactoryIndex.Proofs.Store.Attribution

/-!
# The first definition of each key wins

To write a definition unless a live one is there keeps the first definition of each key, as long as nothing
expires meanwhile. So a store that is filled in this way holds the first definition of each key, in the order in
which the keys first occur, and the times at which they were written make no difference.
-/

namespace FactoryIndex

section Firsts

variable {α : Type} {keyOf : α → String}

def firsts (keyOf : α → String) : List α → List α
  | [] => []
  | value :: rest => value :: (firsts keyOf rest).filter fun other => keyOf other ≠ keyOf value

theorem mem_firsts_iff {values : List α} {value : α} :
    value ∈ firsts keyOf values ↔ values.find? (fun other => keyOf other = keyOf value) = some value := by
  induction values with
  | nil => simp [firsts]
  | cons first rest ih =>
      rw [firsts, List.mem_cons, List.mem_filter, ih, List.find?_cons]
      by_cases hkey : keyOf first = keyOf value
      · simp [hkey, eq_comm]
      · have hne : value ≠ first := fun h => hkey (h ▸ rfl)
        simp [hkey, hne, Ne.symm hkey]

end Firsts

namespace ExpiringMap

variable {α : Type} {m : ExpiringMap α}

def Fresh (m : ExpiringMap α) (now : Int) : Prop := ∀ key, m.hasExpired now key = false

def add (m : ExpiringMap α) (now : Int) (key : String) (value : α) : ExpiringMap α :=
  match m.live? now key with
  | some _ => m
  | none => (m.evict now key).put now key value

theorem fresh_clear (now : Int) : m.clear.Fresh now := fun _ => rfl

theorem live?_of_fresh {now : Int} (hfresh : m.Fresh now) (key : String) : m.live? now key = m.peek? key := by
  rw [live?, if_neg (by simp [hfresh key])]

theorem add_of_peek?_eq_some {now : Int} (hfresh : m.Fresh now) {key : String} {found : α}
    (hfound : m.peek? key = some found) (value : α) : m.add now key value = m := by
  rw [add, live?_of_fresh hfresh, hfound]

theorem add_of_peek?_eq_none {now : Int} (hfresh : m.Fresh now) {key : String}
    (habsent : m.peek? key = none) (value : α) : m.add now key value = m.put now key value := by
  rw [add, live?_of_fresh hfresh, habsent]
  simp [evict, hfresh key]

theorem fresh_put {now written : Int} (hfresh : m.Fresh now) (hage : outlasts written now m.lifetime = false)
    (key : String) (value : α) : (m.put written key value).Fresh now := by
  intro other
  have hput : (m.put written key value).hasExpired now other =
      (if other = key then some ⟨value, written⟩ else m.entries.get? other).any (m.expired now) := by
    rw [hasExpired, put, OrderedMap.get?_insert]
    rfl
  rw [hput]
  split
  · exact hage
  · exact hfresh other

theorem fresh_add {now written : Int} (hfresh : m.Fresh now) (hwritten : m.Fresh written)
    (hage : outlasts written now m.lifetime = false) (key : String) (value : α) :
    (m.add written key value).Fresh now := by
  cases hpeek : m.peek? key with
  | none =>
      rw [add_of_peek?_eq_none hwritten hpeek]
      exact fresh_put hfresh hage key value
  | some found =>
      rw [add_of_peek?_eq_some hwritten hpeek]
      exact hfresh

theorem lifetime_add (now : Int) (key : String) (value : α) : (m.add now key value).lifetime = m.lifetime := by
  unfold add evict
  split
  · rfl
  · split <;> rfl

theorem fresh_foldl_add {time : Nat → Int} (keyOf : α → String) (values : List (α × Nat))
    (hfresh : ∀ n, m.Fresh (time n)) (htime : ∀ i j, outlasts (time i) (time j) m.lifetime = false) (n : Nat) :
    (values.foldl (fun m item => m.add (time item.2) (keyOf item.1) item.1) m).Fresh (time n) := by
  induction values generalizing m with
  | nil => exact hfresh n
  | cons item rest ih =>
      refine ih (fun k => fresh_add (hfresh k) (hfresh item.2) (htime item.2 k) _ _) ?_
      rw [lifetime_add]
      exact htime

/-- Values written one after the other, each at a time of its own, none of which outlasts another one. -/
theorem items_foldl_add {time : Nat → Int} (keyOf : α → String) (values : List (α × Nat))
    (hfresh : ∀ n, m.Fresh (time n)) (htime : ∀ i j, outlasts (time i) (time j) m.lifetime = false) :
    (values.foldl (fun m item => m.add (time item.2) (keyOf item.1) item.1) m).items =
      m.items ++ ((firsts keyOf (values.map Prod.fst)).filter fun value => (m.peek? (keyOf value)).isNone).map
        fun value => (keyOf value, value) := by
  induction values generalizing m with
  | nil => simp [firsts]
  | cons item rest ih =>
      obtain ⟨value, n⟩ := item
      have hfresh' : ∀ k, (m.add (time n) (keyOf value) value).Fresh (time k) := fun k =>
        fresh_add (hfresh k) (hfresh n) (htime n k) _ _
      have htime' : ∀ i j, outlasts (time i) (time j) (m.add (time n) (keyOf value) value).lifetime = false := by
        rw [lifetime_add]
        exact htime
      rw [List.foldl_cons, ih hfresh' htime', List.map_cons, firsts]
      cases hpeek : m.peek? (keyOf value) with
      | some found =>
          rw [add_of_peek?_eq_some (hfresh n) hpeek, List.filter_cons, hpeek, List.filter_filter]
          simp only [Option.isNone_some, Bool.false_eq_true, if_false]
          congr 3
          funext other
          by_cases hkey : keyOf other = keyOf value
          · simp [hkey, hpeek]
          · simp [hkey]
      | none =>
          rw [add_of_peek?_eq_none (hfresh n) hpeek, items_put_of_peek?_eq_none hpeek, List.filter_cons, hpeek,
            List.filter_filter]
          simp only [Option.isNone_none, if_true, List.map_cons, List.append_assoc, List.singleton_append]
          congr 4
          funext other
          by_cases hkey : keyOf other = keyOf value
          · simp [hkey]
          · simp [hkey]

theorem items_foldl_add_clear {time : Nat → Int} (keyOf : α → String) (values : List (α × Nat))
    (htime : ∀ i j, outlasts (time i) (time j) m.lifetime = false) :
    (values.foldl (fun m item => m.add (time item.2) (keyOf item.1) item.1) m.clear).items =
      (firsts keyOf (values.map Prod.fst)).map fun value => (keyOf value, value) := by
  have hitems := items_foldl_add (m := m.clear) keyOf values (fun n => fresh_clear (time n)) htime
  have hall : (firsts keyOf (values.map Prod.fst)).filter (fun value => (m.clear.peek? (keyOf value)).isNone) =
      firsts keyOf (values.map Prod.fst) := List.filter_eq_self.2 fun _ _ => rfl
  rw [hitems, hall]
  rfl

theorem peek?_of_items_eq_firsts {keyOf : α → String} {values : List α}
    (hitems : m.items = (firsts keyOf values).map fun value => (keyOf value, value)) (key : String) :
    m.peek? key = values.find? fun value => keyOf value = key := by
  have hsome : ∀ value, m.peek? key = some value ↔ values.find? (fun value => keyOf value = key) = some value := by
    intro value
    rw [← mem_items, hitems, List.mem_map]
    constructor
    · rintro ⟨other, hother, heq⟩
      obtain ⟨rfl, rfl⟩ := Prod.mk.inj heq
      exact mem_firsts_iff.1 hother
    · intro hfind
      have hkey := List.find?_some hfind
      obtain rfl : keyOf value = key := of_decide_eq_true hkey
      exact ⟨value, mem_firsts_iff.2 hfind, rfl⟩
  exact Option.ext hsome

end ExpiringMap

namespace Store

/-! ### The same in a store -/

theorem factories_updateFile (store : Store) (file : RawText) (change : FileEntry → FileEntry) :
    (store.updateFile file change).factories = store.factories := by
  unfold updateFile
  split <;> rfl

theorem traits_updateFile (store : Store) (file : RawText) (change : FileEntry → FileEntry) :
    (store.updateFile file change).traits = store.traits := by
  unfold updateFile
  split <;> rfl

theorem maps_release {α : Type} (kind : Kind α) (store : Store) (value : α) :
    (kind.release store value).factories = store.factories ∧ (kind.release store value).traits = store.traits :=
  ⟨view_release Store.factories (fun _ _ _ => factories_updateFile ..) store value,
    view_release Store.traits (fun _ _ _ => traits_updateFile ..) store value⟩

theorem maps_upsertFactory (clock : Clock) (store : Store) (factory : Factory) :
    (store.upsertFactory clock factory).factories =
        store.factories.put clock.monotonic factory.name factory ∧
      (store.upsertFactory clock factory).traits = store.traits := by
  obtain ⟨hfactories, htraits⟩ := maps_release .factory store factory
  rw [upsertFactory, releaseFactory_eq]
  exact ⟨congrArg (·.put clock.monotonic factory.name factory) hfactories, htraits⟩

theorem maps_upsertTrait (clock : Clock) (store : Store) (t : Trait) :
    (store.upsertTrait clock t).traits = store.traits.put clock.monotonic t.key t ∧
      (store.upsertTrait clock t).factories = store.factories := by
  obtain ⟨hfactories, htraits⟩ := maps_release .trait store t
  rw [upsertTrait, releaseTrait_eq]
  exact ⟨congrArg (·.put clock.monotonic t.key t) htraits, hfactories⟩

theorem maps_addFactory (clock : Clock) (store : Store) (factory : Factory) :
    (store.addFactory clock factory).factories = store.factories.add clock.monotonic factory.name factory ∧
      (store.addFactory clock factory).traits = store.traits := by
  have htouch : (store.touchFactory clock factory.name).factories =
        store.factories.evict clock.monotonic factory.name ∧
      (store.touchFactory clock factory.name).traits = store.traits := by
    unfold touchFactory ExpiringMap.evict
    split <;> exact ⟨rfl, rfl⟩
  have hupsert := maps_upsertFactory clock (store.touchFactory clock factory.name) factory
  rw [htouch.1, htouch.2] at hupsert
  unfold addFactory ExpiringMap.add factory?
  cases store.factories.live? clock.monotonic factory.name with
  | some found => exact ⟨rfl, rfl⟩
  | none => exact hupsert

theorem maps_addTrait (clock : Clock) (store : Store) (t : Trait) :
    (store.addTrait clock t).traits = store.traits.add clock.monotonic t.key t ∧
      (store.addTrait clock t).factories = store.factories := by
  have htouch : (store.touchTrait clock t.factory t.name).traits =
        store.traits.evict clock.monotonic t.key ∧
      (store.touchTrait clock t.factory t.name).factories = store.factories := by
    unfold touchTrait ExpiringMap.evict Trait.key
    simp only
    split <;> exact ⟨rfl, rfl⟩
  have hupsert := maps_upsertTrait clock (store.touchTrait clock t.factory t.name) t
  rw [htouch.1, htouch.2] at hupsert
  unfold addTrait ExpiringMap.add trait? Trait.key at *
  cases store.traits.live? clock.monotonic (traitKey t.factory t.name) with
  | some found => exact ⟨rfl, rfl⟩
  | none => exact hupsert

/-- Files definitions, each at a time of its own and unless a live one has its key: factories, then traits. -/
def fill (clock : Nat → Clock) (factories : List Factory) (traits : List Trait) (store : Store) : Store :=
  (traits.zipIdx factories.length).foldl (fun store (t, n) => store.addTrait (clock n) t)
    (factories.zipIdx.foldl (fun store (factory, n) => store.addFactory (clock n) factory) store)

/-- Steps that go on from one map of a store, and leave the other one alone. -/
theorem maps_foldl {β μ ν : Type} {step : Store → β → Store} (map : Store → μ) (other : Store → ν) (change : μ → β → μ)
    (hstep : ∀ store item, map (step store item) = change (map store) item ∧ other (step store item) = other store)
    (items : List β) (store : Store) :
    map (items.foldl step store) = items.foldl change (map store) ∧ other (items.foldl step store) = other store :=
  ⟨(List.foldl_hom map fun store item => (hstep store item).1.symm).symm,
    OrderedMap.view_foldl other (fun store item => (hstep store item).2) items store⟩

theorem maps_fill (clock : Nat → Clock) (factories : List Factory) (traits : List Trait) (store : Store) :
    (store.fill clock factories traits).factories =
        factories.zipIdx.foldl (fun m item => m.add (clock item.2).monotonic item.1.name item.1)
          store.factories ∧
      (store.fill clock factories traits).traits =
        (traits.zipIdx factories.length).foldl
          (fun m item => m.add (clock item.2).monotonic item.1.key item.1) store.traits := by
  obtain ⟨hfactories, hkept⟩ := maps_foldl Store.factories Store.traits
    (fun m (item : Factory × Nat) => m.add (clock item.2).monotonic item.1.name item.1)
    (fun store item => maps_addFactory (clock item.2) store item.1) factories.zipIdx store
  obtain ⟨htraits, hkept'⟩ := maps_foldl Store.traits Store.factories
    (fun m (item : Trait × Nat) => m.add (clock item.2).monotonic item.1.key item.1)
    (fun store item => maps_addTrait (clock item.2) store item.1) (traits.zipIdx factories.length)
    (factories.zipIdx.foldl (fun store (factory, n) => store.addFactory (clock n) factory) store)
  rw [hkept] at htraits
  exact ⟨hkept'.trans hfactories, htraits⟩

/-- Nothing that is written at one of these moments has expired at another one. -/
def Outlives (store : Store) (moments : Nat → Moment) : Prop :=
  ∀ i j, outlasts (moments i).clock.monotonic (moments j).clock.monotonic store.factories.lifetime = false ∧
    outlasts (moments i).clock.monotonic (moments j).clock.monotonic store.traits.lifetime = false

section Fill

variable {store : Store} {moments : Nat → Moment}

theorem Outlives.const (hfactories : 0 ≤ store.factories.lifetime) (htraits : 0 ≤ store.traits.lifetime)
    (moment : Moment) : store.Outlives fun _ => moment :=
  fun _ _ => ⟨not_outlasts_self hfactories _, not_outlasts_self htraits _⟩

theorem items_factories_fill (houtlives : store.Outlives moments) (factories : List Factory)
    (traits : List Trait) :
    (store.clear.fill (fun n => (moments n).clock) factories traits).factories.items =
      (firsts Factory.name factories).map fun factory => (factory.name, factory) := by
  have hitems := ExpiringMap.items_foldl_add_clear Factory.name factories.zipIdx fun i j => (houtlives i j).1
  rw [List.zipIdx_map_fst] at hitems
  rw [(maps_fill _ factories traits _).1]
  exact hitems

theorem items_traits_fill (houtlives : store.Outlives moments) (factories : List Factory)
    (traits : List Trait) :
    (store.clear.fill (fun n => (moments n).clock) factories traits).traits.items =
      (firsts Trait.key traits).map fun t => (t.key, t) := by
  have hitems := ExpiringMap.items_foldl_add_clear Trait.key (traits.zipIdx factories.length)
    fun i j => (houtlives i j).2
  rw [List.zipIdx_map_fst] at hitems
  rw [(maps_fill _ factories traits _).2]
  exact hitems

theorem peek?_factories_fill (houtlives : store.Outlives moments) (factories : List Factory) (traits : List Trait)
    (name : String) :
    (store.clear.fill (fun n => (moments n).clock) factories traits).factories.peek? name =
      factories.find? fun factory => factory.name = name :=
  ExpiringMap.peek?_of_items_eq_firsts (items_factories_fill houtlives factories traits) name

theorem peek?_traits_fill (houtlives : store.Outlives moments) (factories : List Factory) (traits : List Trait)
    (key : String) :
    (store.clear.fill (fun n => (moments n).clock) factories traits).traits.peek? key =
      traits.find? fun t => t.key = key :=
  ExpiringMap.peek?_of_items_eq_firsts (items_traits_fill houtlives factories traits) key

theorem fresh_traits_fill (houtlives : store.Outlives moments) (factories : List Factory) (traits : List Trait)
    (n : Nat) :
    (store.clear.fill (fun n => (moments n).clock) factories traits).traits.Fresh (moments n).clock.monotonic := by
  rw [(maps_fill _ factories traits _).2]
  exact ExpiringMap.fresh_foldl_add Trait.key _ (fun k => ExpiringMap.fresh_clear _)
    (fun i j => (houtlives i j).2) n

theorem Attributed.fill (clock : Nat → Clock) (factories : List Factory) (traits : List Trait)
    (h : Attributed store) : Attributed (store.fill clock factories traits) := by
  refine foldl (fun store item hstore => ?_) _ (foldl (fun store item hstore => ?_) _ h)
  · exact addTrait (clock item.2) store item.1 hstore
  · exact addFactory (clock item.2) store item.1 hstore

end Fill

/-! ### Stores with the same definitions -/

/-- Two stores hold the same definitions, in whatever order, and note the same keys for each file. -/
structure Agrees (a b : Store) : Prop where
  factories : ∀ name, a.factories.peek? name = b.factories.peek? name
  traits : ∀ key, a.traits.peek? key = b.traits.peek? key
  factories_noted : ∀ file name, Kind.factory.Noted a file name ↔ Kind.factory.Noted b file name
  traits_noted : ∀ file key, Kind.trait.Noted a file key ↔ Kind.trait.Noted b file key

/-- Where definitions are noted follows from what is stored. -/
theorem Agrees.of_stored {a b : Store} (ha : Attributed a) (hb : Attributed b)
    (hfactories : ∀ name, a.factories.peek? name = b.factories.peek? name)
    (htraits : ∀ key, a.traits.peek? key = b.traits.peek? key) : Agrees a b := by
  refine ⟨hfactories, htraits, fun file name => ?_, fun file key => ?_⟩
  · rw [ha.factories.noted_iff, hb.factories.noted_iff]
    simp only [Kind.stored, Kind.factory, hfactories]
  · rw [ha.traits.noted_iff, hb.traits.noted_iff]
    simp only [Kind.stored, Kind.trait, htraits]

/-- Two stores hold the same definitions in the same order, and note the same keys for each file. -/
structure SameIndex (a b : Store) : Prop extends Agrees a b where
  factories_items : a.factories.items = b.factories.items
  traits_items : a.traits.items = b.traits.items

theorem SameIndex.of_items {a b : Store} (ha : Attributed a) (hb : Attributed b)
    (hfactories : a.factories.items = b.factories.items) (htraits : a.traits.items = b.traits.items) :
    SameIndex a b := by
  refine ⟨.of_stored ha hb (fun name => Option.ext fun factory => ?_) fun key => Option.ext fun t => ?_,
    hfactories, htraits⟩
  · rw [← ExpiringMap.mem_items, ← ExpiringMap.mem_items, hfactories]
  · rw [← ExpiringMap.mem_items, ← ExpiringMap.mem_items, htraits]

end Store

end FactoryIndex
