import FactoryIndex.Definition
import FactoryIndex.Report
import FactoryIndex.Store.ExpiringMap

/-!
# The store of definitions

The store holds factories by name and traits by key, and for every file the names and keys that come
from it, so that a changed file can be indexed anew without looking at the others. A definition belongs
to the file it was last written from; what it was replaced in loses it.

Looking a definition up removes it if it has expired, and with it its place among the definitions of its
file. The entry of a file stays, even if nothing is left in it, until the file itself is removed.
-/

namespace FactoryIndex

/-- What the two clocks show: one that only measures how much time passes, and the time of day, which files
are stamped with. -/
structure Clock where
  monotonic : Int
  wall : Int
  deriving Repr, DecidableEq

/-- Whether the clock that measures time can be read, which it cannot out of its range. -/
def Clock.measures (clock : Clock) : Bool := readable clock.monotonic

/-- Whether the time of day can be read. -/
def Clock.tellsDay (clock : Clock) : Bool := readable clock.wall

/-- What comes from one file, and when the file was last modified as far as is known. -/
structure FileEntry where
  lastModified : Int
  factories : NameSet := .empty
  traits : NameSet := .empty

namespace FileEntry

def addFactory (name : String) (entry : FileEntry) : FileEntry :=
  { entry with factories := entry.factories.insert name }

def dropFactory (name : String) (entry : FileEntry) : FileEntry :=
  { entry with factories := entry.factories.erase name }

def addTrait (key : String) (entry : FileEntry) : FileEntry :=
  { entry with traits := entry.traits.insert key }

def dropTrait (key : String) (entry : FileEntry) : FileEntry :=
  { entry with traits := entry.traits.erase key }

def stamp (modified : Int) (entry : FileEntry) : FileEntry := { entry with lastModified := modified }

end FileEntry

structure Stats where
  factoryCount : Nat
  traitCount : Nat
  fileCount : Nat
  initialized : Bool
  ttl : Int
  deriving Repr, DecidableEq

def Stats.fields (stats : Stats) : Fields := [
  ("factory_count", .int stats.factoryCount), ("trait_count", .int stats.traitCount),
  ("file_count", .int stats.fileCount), ("initialized", .bool stats.initialized),
  ("ttl_ms", .int stats.ttl)]

def Stats.toValue (stats : Stats) : Value := .object stats.fields

/-- Factories by name, traits by key, and the files they come from. `ttl` is the time to live that was
asked for, in milliseconds; `initialized` tells that the store holds a complete index. -/
structure Store where
  ttl : Int
  factories : ExpiringMap Factory
  traits : ExpiringMap Trait
  files : OrderedMap RawText FileEntry
  initialized : Bool

namespace Store

/-! ### Time to live -/

/-- The shortest time to live, in milliseconds. -/
def minTtl : Int := 1000

def defaultTtl : Int := 60000

def boundedTtl (ttl : Int) : Int := if ttl < minTtl then minTtl else ttl

theorem boundedTtl_pos (ttl : Int) : 0 < boundedTtl ttl := by
  unfold boundedTtl minTtl
  split <;> omega

def empty (ttl : Int) : Store := ⟨ttl, .empty ttl, .empty ttl, .empty, false⟩

/-- An empty store whose time to live is the whole number that a value stands for. -/
def create (ttl : Value) : Except Failure Store :=
  match ttl.toInt with
  | .error fault => .error (fault.failure ttl)
  | .ok n => if fitsSeconds (boundedTtl n) then .ok (empty (boundedTtl n)) else .error .overflow

/-- Sets the time to live. If the number is out of range it is noted as the time to live all the same,
while entries go on to expire as before. -/
def setTtl (store : Store) (ttl : Value) : Store × Except Failure Unit :=
  match ttl.toInt with
  | .error fault => (store, .error (fault.failure ttl))
  | .ok n =>
    let ttl := boundedTtl n
    if fitsSeconds ttl then
      ({ store with
          ttl := ttl
          factories := { store.factories with lifetime := ttl }
          traits := { store.traits with lifetime := ttl } }, .ok ())
    else ({ store with ttl := ttl }, .error .overflow)

def setInitialized (store : Store) (initialized : Bool) : Store :=
  { store with initialized := initialized }

/-! ### Files of definitions -/

/-- Changes the entry of a file, if there is one. -/
def updateFile (store : Store) (file : RawText) (change : FileEntry → FileEntry) : Store :=
  match store.files.get? file with
  | some entry => { store with files := store.files.insert file (change entry) }
  | none => store

/-- Changes the entry of a file; one that is not there is made first and stamped with the time of
day. -/
def ensureFile (store : Store) (clock : Clock) (file : RawText) (change : FileEntry → FileEntry) : Store :=
  let entry := (store.files.get? file).getD { lastModified := clock.wall }
  { store with files := store.files.insert file (change entry) }

def forgetFactory (store : Store) (name : String) : Store :=
  { store with files := store.files.mapValues (FileEntry.dropFactory name) }

def forgetTrait (store : Store) (key : String) : Store :=
  { store with files := store.files.mapValues (FileEntry.dropTrait key) }

/-! ### Writing -/

/-- Makes way for a factory: if one of its name came from another file, that file loses it. -/
def releaseFactory (store : Store) (factory : Factory) : Store :=
  match store.factories.peek? factory.name with
  | some previous =>
    if previous.location.file = factory.location.file then store
    else store.updateFile previous.location.file (FileEntry.dropFactory factory.name)
  | none => store

/-- Makes way for a trait: if one of its key came from another file, that file loses it. -/
def releaseTrait (store : Store) (t : Trait) : Store :=
  match store.traits.peek? t.key with
  | some previous =>
    if previous.location.file = t.location.file then store
    else store.updateFile previous.location.file (FileEntry.dropTrait t.key)
  | none => store

/-- Writes a factory. If one of its name came from another file, that file loses it. -/
def upsertFactory (clock : Clock) (store : Store) (factory : Factory) : Store :=
  let store := store.releaseFactory factory
  { store with factories := store.factories.put clock.monotonic factory.name factory }.ensureFile
    clock factory.location.file (FileEntry.addFactory factory.name)

/-- Writes a trait. If one of its key came from another file, that file loses it. -/
def upsertTrait (clock : Clock) (store : Store) (t : Trait) : Store :=
  let store := store.releaseTrait t
  { store with traits := store.traits.put clock.monotonic t.key t }.ensureFile
    clock t.location.file (FileEntry.addTrait t.key)

/-! ### Looking up -/

/-- The factory of a name, unless it has expired. -/
def factory? (store : Store) (clock : Clock) (name : String) : Option Factory :=
  store.factories.live? clock.monotonic name

/-- The trait of a factory, unless it has expired. -/
def trait? (store : Store) (clock : Clock) (factory name : String) : Option Trait :=
  store.traits.live? clock.monotonic (traitKey factory name)

/-- The store after a factory has been looked up: if it had expired it is gone. -/
def touchFactory (store : Store) (clock : Clock) (name : String) : Store :=
  if store.factories.hasExpired clock.monotonic name then
    { store with factories := store.factories.erase name }.forgetFactory name
  else store

/-- The store after a trait has been looked up: if it had expired it is gone. -/
def touchTrait (store : Store) (clock : Clock) (factory name : String) : Store :=
  let key := traitKey factory name
  if store.traits.hasExpired clock.monotonic key then
    { store with traits := store.traits.erase key }.forgetTrait key
  else store

/-- Writes a factory unless a live one has its name. -/
def addFactory (clock : Clock) (store : Store) (factory : Factory) : Store :=
  match store.factory? clock factory.name with
  | some _ => store
  | none => upsertFactory clock (store.touchFactory clock factory.name) factory

/-- Writes a trait unless a live one has its key. -/
def addTrait (clock : Clock) (store : Store) (t : Trait) : Store :=
  match store.trait? clock t.factory t.name with
  | some _ => store
  | none => upsertTrait clock (store.touchTrait clock t.factory t.name) t

/-! ### Removing -/

/-- Removes a trait by its key, also from the file it comes from. -/
def removeTrait (store : Store) (key : String) (t : Trait) : Store :=
  { store with traits := store.traits.erase key }.updateFile t.location.file (FileEntry.dropTrait key)

/-- Removes a factory by its name, also from the file it comes from. -/
def removeFactoryAlone (store : Store) (name : String) : Store :=
  match store.factories.peek? name with
  | some factory =>
    { store with factories := store.factories.erase name }.updateFile factory.location.file
      (FileEntry.dropFactory name)
  | none => store

/-- Removes a factory and all traits that belong to it. -/
def removeFactory (store : Store) (name : String) : Store :=
  let store := store.removeFactoryAlone name
  (store.traits.items.filter fun item => item.2.factory == name).foldl
    (fun store item => store.removeTrait item.1 item.2) store

/-- Removes all that comes from a file, and the entry of the file. -/
def removeFile (store : Store) (file : RawText) : Store :=
  match store.files.get? file with
  | some entry =>
    { store with
        files := store.files.erase file
        factories := entry.factories.names.foldl ExpiringMap.erase store.factories
        traits := entry.traits.names.foldl ExpiringMap.erase store.traits }
  | none => store

def removalRecords (store : Store) (file : RawText) : List LogRecord :=
  match store.files.get? file with
  | some entry => [⟨.debug, .store, "cache.file_removed", [
      ("file", .raw file), ("factories_removed", .int entry.factories.size),
      ("traits_removed", .int entry.traits.size)]⟩]
  | none => []

/-- Puts new definitions in place of all that came from a file, and notes when the file was modified;
if that is not known, the time of day is taken. -/
def replaceFile (store : Store) (clock : Clock) (file : RawText) (factories : List Factory)
    (traits : List Trait) (modified : Option Int) : Store :=
  let store := store.removeFile file
  let store := factories.foldl (upsertFactory clock) store
  let store := traits.foldl (upsertTrait clock) store
  store.ensureFile clock file (FileEntry.stamp (modified.getD clock.wall))

/-- Whether a file that was modified at the given time has to be indexed anew. -/
def shouldReindex (store : Store) (file : RawText) (modified : Int) : Bool :=
  match store.files.get? file with
  | some entry => decide (entry.lastModified < modified)
  | none => true

def expiredCount (store : Store) (clock : Clock) : Nat :=
  (store.factories.expiredKeys clock.monotonic).length + (store.traits.expiredKeys clock.monotonic).length

def cleanup (store : Store) (clock : Clock) : Store :=
  let factories := store.factories.expiredKeys clock.monotonic
  let traits := store.traits.expiredKeys clock.monotonic
  let store :=
    { store with
        factories := store.factories.sweep clock.monotonic
        traits := store.traits.sweep clock.monotonic }
  traits.foldl forgetTrait (factories.foldl forgetFactory store)

def cleanupRecords (store : Store) (clock : Clock) : List LogRecord :=
  let removed := store.expiredCount clock
  if removed = 0 then [] else [⟨.debug, .store, "cache.expired_swept", [("removed", .int removed)]⟩]

def clear (store : Store) : Store :=
  { store with
      factories := store.factories.clear
      traits := store.traits.clear
      files := .empty
      initialized := false }

/-! ### Views -/

/-- The statistics of a store; expired definitions that are still present count. -/
def stats (store : Store) : Stats :=
  ⟨store.factories.size, store.traits.size, store.files.size, store.initialized, store.ttl⟩

/-- All factories, expired or not, in the order of the store. -/
def allFactories (store : Store) : List Factory := store.factories.items.map Prod.snd

/-- The names and keys that come from a file, each sorted. -/
def contributions? (store : Store) (file : RawText) : Option (List String × List String) :=
  (store.files.get? file).map fun entry => (entry.factories.sorted, entry.traits.sorted)

end Store

end FactoryIndex
