import FactoryIndex.Store.Basic

/-!
# Working by clocks that may be out of range

The operations of a store are described for clocks that can be read. Here each of them is given its
outcome for any clocks: an operation fails when it comes to read a clock that is out of range, and what it
has done until then stays done. Writing a definition makes way for it first, and then needs the clock that
measures time; a look-up needs that clock only if there is a definition whose age matters. The time of day
is needed only to make the entry of a file of which nothing else tells when it was modified.
-/

namespace FactoryIndex.Store.Timed

/-- Does something for one item after the other, up to the first failure. -/
def each {α β : Type} (step : Store → α → Store × Except Failure β) :
    Store → List α → Store × Except Failure Unit
  | store, [] => (store, .ok ())
  | store, item :: rest =>
    match step store item with
    | (store, .ok _) => each step store rest
    | (store, .error failure) => (store, .error failure)

/-- Changes the entry of a file. To make one takes the time of day. -/
def ensureFile (clock : Clock) (store : Store) (file : RawText) (change : FileEntry → FileEntry) :
    Store × Except Failure Unit :=
  if store.files.contains file || clock.tellsDay then (store.ensureFile clock file change, .ok ())
  else (store, .error .overflow)

def upsertFactory (clock : Clock) (store : Store) (factory : Factory) : Store × Except Failure Unit :=
  let store := store.releaseFactory factory
  if clock.measures then
    ensureFile clock { store with factories := store.factories.put clock.monotonic factory.name factory }
      factory.location.file (FileEntry.addFactory factory.name)
  else (store, .error .overflow)

def upsertTrait (clock : Clock) (store : Store) (t : Trait) : Store × Except Failure Unit :=
  let store := store.releaseTrait t
  if clock.measures then
    ensureFile clock { store with traits := store.traits.put clock.monotonic t.key t }
      t.location.file (FileEntry.addTrait t.key)
  else (store, .error .overflow)

def findFactory (clock : Clock) (store : Store) (name : String) :
    Store × Except Failure (Option Factory) :=
  if clock.measures then (store.touchFactory clock name, .ok (store.factory? clock name))
  else (store, if store.factories.contains name then .error .overflow else .ok none)

def findTrait (clock : Clock) (store : Store) (factory name : String) :
    Store × Except Failure (Option Trait) :=
  if clock.measures then (store.touchTrait clock factory name, .ok (store.trait? clock factory name))
  else (store, if store.traits.contains (traitKey factory name) then .error .overflow else .ok none)

/-- Writes a factory unless a live one has its name. The outcome tells whether it was written. -/
def addFactory (clock : Clock) (store : Store) (factory : Factory) : Store × Except Failure Bool :=
  match findFactory clock store factory.name with
  | (store, .error failure) => (store, .error failure)
  | (store, .ok (some _)) => (store, .ok false)
  | (store, .ok none) =>
    let (store, outcome) := upsertFactory clock store factory
    (store, outcome.map fun _ => true)

/-- Writes a trait unless a live one has its key. The outcome tells whether it was written. -/
def addTrait (clock : Clock) (store : Store) (t : Trait) : Store × Except Failure Bool :=
  match findTrait clock store t.factory t.name with
  | (store, .error failure) => (store, .error failure)
  | (store, .ok (some _)) => (store, .ok false)
  | (store, .ok none) =>
    let (store, outcome) := upsertTrait clock store t
    (store, outcome.map fun _ => true)

/-- Puts new definitions in place of all that came from a file. If nothing tells when the file was modified,
the time of day is read before the file gets its entry. -/
def replaceFile (clock : Clock) (store : Store) (file : RawText) (factories : List Factory)
    (traits : List Trait) (modified : Option Int) : Store × Except Failure Unit :=
  match each (upsertFactory clock) (store.removeFile file) factories with
  | (store, .error failure) => (store, .error failure)
  | (store, .ok ()) =>
    match each (upsertTrait clock) store traits with
    | (store, .error failure) => (store, .error failure)
    | (store, .ok ()) =>
      if modified.isSome || clock.tellsDay then
        (store.ensureFile clock file (FileEntry.stamp (modified.getD clock.wall)), .ok ())
      else (store, .error .overflow)

/-- Removes all definitions that have expired. The outcome tells how many. -/
def cleanup (clock : Clock) (store : Store) : Store × Except Failure Nat :=
  if clock.measures then (store.cleanup clock, .ok (store.expiredCount clock))
  else (store, .error .overflow)

/-! ### Clocks that can be read

By such clocks nothing fails, and every operation does what is described for it. -/

theorem each_of_ok {α β : Type} {step : Store → α → Store × Except Failure β} {plain : Store → α → Store}
    {value : Store → α → β} (h : ∀ store item, step store item = (plain store item, .ok (value store item)))
    (store : Store) (items : List α) : each step store items = (items.foldl plain store, .ok ()) := by
  induction items generalizing store with
  | nil => rfl
  | cons item rest ih => simp [each, h, ih]

theorem upsertFactory_of_readable {clock : Clock} (hm : clock.measures = true) (hw : clock.tellsDay = true)
    (store : Store) (factory : Factory) :
    upsertFactory clock store factory = (store.upsertFactory clock factory, .ok ()) := by
  simp [upsertFactory, Store.upsertFactory, ensureFile, hm, hw]

theorem upsertTrait_of_readable {clock : Clock} (hm : clock.measures = true) (hw : clock.tellsDay = true)
    (store : Store) (t : Trait) :
    upsertTrait clock store t = (store.upsertTrait clock t, .ok ()) := by
  simp [upsertTrait, Store.upsertTrait, ensureFile, hm, hw]

theorem touchFactory_of_isSome {clock : Clock} {store : Store} {name : String}
    (h : (store.factory? clock name).isSome = true) : store.touchFactory clock name = store := by
  cases he : store.factories.hasExpired clock.monotonic name with
  | false => simp [touchFactory, he]
  | true => simp [factory?, ExpiringMap.live?, he] at h

theorem touchTrait_of_isSome {clock : Clock} {store : Store} {factory name : String}
    (h : (store.trait? clock factory name).isSome = true) : store.touchTrait clock factory name = store := by
  cases he : store.traits.hasExpired clock.monotonic (traitKey factory name) with
  | false => simp [touchTrait, he]
  | true => simp [trait?, ExpiringMap.live?, he] at h

theorem addFactory_of_readable {clock : Clock} (hm : clock.measures = true) (hw : clock.tellsDay = true)
    (store : Store) (factory : Factory) :
    addFactory clock store factory =
      (store.addFactory clock factory, .ok (store.factory? clock factory.name).isNone) := by
  cases h : store.factory? clock factory.name with
  | some found =>
    have ht := touchFactory_of_isSome (by rw [h]; rfl : (store.factory? clock factory.name).isSome = true)
    simp [addFactory, findFactory, Store.addFactory, hm, h, ht]
  | none =>
    simp [addFactory, findFactory, Store.addFactory, hm, h, upsertFactory_of_readable hm hw, Except.map]

theorem addTrait_of_readable {clock : Clock} (hm : clock.measures = true) (hw : clock.tellsDay = true)
    (store : Store) (t : Trait) :
    addTrait clock store t = (store.addTrait clock t, .ok (store.trait? clock t.factory t.name).isNone) := by
  cases h : store.trait? clock t.factory t.name with
  | some found =>
    have ht := touchTrait_of_isSome (by rw [h]; rfl : (store.trait? clock t.factory t.name).isSome = true)
    simp [addTrait, findTrait, Store.addTrait, hm, h, ht]
  | none =>
    simp [addTrait, findTrait, Store.addTrait, hm, h, upsertTrait_of_readable hm hw, Except.map]

theorem replaceFile_of_readable {clock : Clock} (hm : clock.measures = true) (hw : clock.tellsDay = true)
    (store : Store) (file : RawText) (factories : List Factory) (traits : List Trait)
    (modified : Option Int) :
    replaceFile clock store file factories traits modified =
      (store.replaceFile clock file factories traits modified, .ok ()) := by
  simp [replaceFile, Store.replaceFile, each_of_ok (upsertFactory_of_readable hm hw),
    each_of_ok (upsertTrait_of_readable hm hw), hw]

end FactoryIndex.Store.Timed
