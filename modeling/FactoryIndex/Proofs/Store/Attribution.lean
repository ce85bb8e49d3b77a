import FactoryIndex.Proofs.Store.Effect
import FactoryIndex.Proofs.Store.Run
import Mathlib.Logic.ExistsUnique

/-!
# Attribution of definitions to files

In every state that a store can be in, the entries of files note exactly the definitions that the store
holds, each under the file it comes from. The two are written by separate statements in a dozen operations, so
this is an invariant of the interface as a whole. Each operation preserves it because of what it does to
factories and to traits.
-/

namespace FactoryIndex.Store

/-- Factories and traits are both noted for the files they come from. -/
structure Attributed (store : Store) : Prop where
  factories : Kind.factory.Attributed store
  traits : Kind.trait.Attributed store

namespace Attributed

variable {store : Store}

theorem foldl {β : Type} {step : Store → β → Store}
    (hstep : ∀ store item, Attributed store → Attributed (step store item)) (items : List β)
    (h : Attributed store) : Attributed (items.foldl step store) := by
  induction items generalizing store with
  | nil => exact h
  | cons item rest ih => exact ih (hstep store item h)

theorem upsertFactory (clock : Clock) (store : Store) (factory : Factory) (h : Attributed store) :
    Attributed (store.upsertFactory clock factory) :=
  ⟨h.factories.writes (writes_upsertFactory h.factories clock factory),
    h.traits.keeps (keeps_upsertFactory clock store factory)⟩

theorem upsertTrait (clock : Clock) (store : Store) (t : Trait) (h : Attributed store) :
    Attributed (store.upsertTrait clock t) :=
  ⟨h.factories.keeps (keeps_upsertTrait clock store t), h.traits.writes (writes_upsertTrait h.traits clock t)⟩

theorem touchFactory (clock : Clock) (name : String) (h : Attributed store) :
    Attributed (store.touchFactory clock name) :=
  ⟨h.factories.drops (drops_touchFactory clock store name),
    h.traits.keeps (keeps_touchFactory clock store name)⟩

theorem touchTrait (clock : Clock) (factory name : String) (h : Attributed store) :
    Attributed (store.touchTrait clock factory name) :=
  ⟨h.factories.keeps (keeps_touchTrait clock store factory name),
    h.traits.drops (drops_touchTrait clock store factory name)⟩

theorem addFactory (clock : Clock) (store : Store) (factory : Factory) (h : Attributed store) :
    Attributed (store.addFactory clock factory) := by
  unfold Store.addFactory
  split
  · exact h
  · exact upsertFactory clock _ factory (h.touchFactory clock factory.name)

theorem addTrait (clock : Clock) (store : Store) (t : Trait) (h : Attributed store) :
    Attributed (store.addTrait clock t) := by
  unfold Store.addTrait
  split
  · exact h
  · exact upsertTrait clock _ t (h.touchTrait clock t.factory t.name)

theorem removeFactory (name : String) (h : Attributed store) : Attributed (store.removeFactory name) :=
  ⟨h.factories.drops (drops_removeFactory h.factories name),
    h.traits.drops (drops_removeFactory_traits h.traits name)⟩

theorem removeFile (file : RawText) (h : Attributed store) : Attributed (store.removeFile file) :=
  ⟨h.factories.drops (drops_removeFile h.factories file),
    h.traits.drops (drops_removeFile_traits h.traits file)⟩

theorem stampFile (clock : Clock) (file : RawText) (modified : Int) (h : Attributed store) :
    Attributed (store.ensureFile clock file (FileEntry.stamp modified)) :=
  ⟨h.factories.keeps (keeps_ensureFile store file clock (FileEntry.stamp modified) fun _ => rfl),
    h.traits.keeps (keeps_ensureFile store file clock (FileEntry.stamp modified) fun _ => rfl)⟩

theorem replaceFile (clock : Clock) (file : RawText) (factories : List Factory) (traits : List Trait)
    (modified : Option Int) (h : Attributed store) :
    Attributed (store.replaceFile clock file factories traits modified) := by
  have hfactories := (h.removeFile file).foldl (upsertFactory clock) factories
  have htraits := hfactories.foldl (upsertTrait clock) traits
  exact htraits.stampFile clock file (modified.getD clock.wall)

theorem cleanup (clock : Clock) (h : Attributed store) : Attributed (store.cleanup clock) :=
  ⟨h.factories.drops (drops_cleanup clock store), h.traits.drops (drops_cleanup_traits clock store)⟩

theorem setTtl (ttl : Value) (h : Attributed store) : Attributed (store.setTtl ttl).1 := by
  unfold Store.setTtl
  split
  · exact h
  · simp only
    split
    · exact ⟨h.factories.keeps (.of_eq (fun _ => rfl) rfl), h.traits.keeps (.of_eq (fun _ => rfl) rfl)⟩
    · exact ⟨h.factories.keeps (.of_eq (fun _ => rfl) rfl), h.traits.keeps (.of_eq (fun _ => rfl) rfl)⟩

theorem setInitialized (initialized : Bool) (h : Attributed store) :
    Attributed (store.setInitialized initialized) :=
  ⟨h.factories.keeps (.of_eq (fun _ => rfl) rfl), h.traits.keeps (.of_eq (fun _ => rfl) rfl)⟩

/-- A store without definitions and without files. -/
theorem of_empty (hfactories : ∀ name, store.factories.peek? name = none)
    (htraits : ∀ key, store.traits.peek? key = none) (hfiles : store.files = .empty) : Attributed store := by
  constructor
  · constructor
    · intro file name
      simp [Kind.Noted, Kind.stored, Kind.factory, hfactories, hfiles]
    · intro name factory hstored
      cases (hfactories name).symm.trans hstored
  · constructor
    · intro file key
      simp [Kind.Noted, Kind.stored, Kind.trait, htraits, hfiles]
    · intro key t hstored
      cases (htraits key).symm.trans hstored

theorem clear (store : Store) : Attributed store.clear := of_empty (fun _ => rfl) (fun _ => rfl) rfl

theorem create {ttl : Value} (hcreate : Store.create ttl = .ok store) : Attributed store := by
  unfold Store.create at hcreate
  split at hcreate
  · cases hcreate
  · split at hcreate
    · cases hcreate
      exact of_empty (fun _ => rfl) (fun _ => rfl) rfl
    · cases hcreate

theorem perform (moment : Moment) (operation : Operation) (h : Attributed store) :
    Attributed (store.perform moment.clock operation).1 := by
  have hmeasures := moment.measures
  have htellsDay := moment.tellsDay
  cases operation with
  | upsertFactory factory =>
      rw [Store.perform, Timed.upsertFactory_of_readable hmeasures htellsDay]
      exact upsertFactory moment.clock store factory h
  | upsertTrait t =>
      rw [Store.perform, Timed.upsertTrait_of_readable hmeasures htellsDay]
      exact upsertTrait moment.clock store t h
  | addFactory factory =>
      rw [Store.perform, Timed.addFactory_of_readable hmeasures htellsDay]
      exact addFactory moment.clock store factory h
  | addTrait t =>
      rw [Store.perform, Timed.addTrait_of_readable hmeasures htellsDay]
      exact addTrait moment.clock store t h
  | findFactory name =>
      rw [Store.perform, Timed.findFactory, if_pos hmeasures]
      exact h.touchFactory moment.clock name
  | findTrait factory name =>
      rw [Store.perform, Timed.findTrait, if_pos hmeasures]
      exact h.touchTrait moment.clock factory name
  | removeFactory name => exact h.removeFactory name
  | removeFile file => exact h.removeFile file
  | replaceFile file factories traits modified =>
      rw [Store.perform, Timed.replaceFile_of_readable hmeasures htellsDay]
      exact h.replaceFile moment.clock file factories traits modified
  | shouldReindex file modified => exact h
  | cleanup =>
      rw [Store.perform, Timed.cleanup, if_pos hmeasures]
      exact h.cleanup moment.clock
  | clear => exact clear store
  | setTtl ttl => exact h.setTtl ttl
  | setInitialized initialized => exact h.setInitialized initialized

theorem of_reachable (hreachable : Reachable store) : Attributed store := by
  induction hreachable with
  | start hcreate => exact create hcreate
  | step moment operation _ ih => exact ih.perform moment operation

end Attributed

/-- **Attribution is exact.** A file notes a factory or a trait if and only if the store holds one of that name
or key, expired or not, that comes from the file; everything is stored under its own name or key; and so
everything stored is noted for exactly one file. -/
theorem attribution_exact {store : Store} (hreachable : Reachable store) :
    (∀ file name, (∃ entry, store.files.get? file = some entry ∧ name ∈ entry.factories) ↔
      ∃ factory, store.factories.peek? name = some factory ∧ factory.location.file = file) ∧
    (∀ file key, (∃ entry, store.files.get? file = some entry ∧ key ∈ entry.traits) ↔
      ∃ t, store.traits.peek? key = some t ∧ t.location.file = file) ∧
    (∀ name factory, store.factories.peek? name = some factory → factory.name = name ∧
      ∃! file, ∃ entry, store.files.get? file = some entry ∧ name ∈ entry.factories) ∧
    (∀ key t, store.traits.peek? key = some t → t.key = key ∧
      ∃! file, ∃ entry, store.files.get? file = some entry ∧ key ∈ entry.traits) := by
  have h := Attributed.of_reachable hreachable
  refine ⟨h.factories.noted_iff, h.traits.noted_iff, fun name factory hfactory => ?_, fun key t ht => ?_⟩
  · have hnoted := h.factories.noted_iff_of_stored hfactory
    exact ⟨h.factories.keyOf_stored name factory hfactory, factory.location.file, (hnoted _).2 rfl,
      fun file hfile => (hnoted file).1 hfile⟩
  · have hnoted := h.traits.noted_iff_of_stored ht
    exact ⟨h.traits.keyOf_stored key t ht, t.location.file, (hnoted _).2 rfl,
      fun file hfile => (hnoted file).1 hfile⟩

/-- A factory that was written from one file, and then from another one while the clocks went back. -/
theorem attribution_exact_moved :
    let user (file : RawText) : Factory := { name := "user", location := { file := file, line := 0 } }
    let store := (((empty 60000).perform ⟨reading 5000, reading 5000⟩ (.upsertFactory (user "a.rb"))).1.perform ⟨0, 0⟩
      (.upsertFactory (user "b.rb"))).1
    store.factories.peek? "user" = some (user "b.rb") ∧
      ∃! file, ∃ entry, store.files.get? file = some entry ∧ "user" ∈ entry.factories := by
  intro user store
  let early : Moment := ⟨⟨0, 0⟩, by decide +kernel, by decide +kernel⟩
  let late : Moment := ⟨⟨reading 5000, reading 5000⟩, by decide +kernel, by decide +kernel⟩
  have hcreate : create (.int 60000) = .ok (empty 60000) := by rfl
  have hnew : Reachable (empty 60000) := .start hcreate
  have hstore : Reachable store := .step early _ (.step late _ hnew)
  have hstored : store.factories.peek? "user" = some (user "b.rb") := by decide +kernel
  exact ⟨hstored, ((attribution_exact hstore).2.2.1 "user" (user "b.rb") hstored).2⟩

end FactoryIndex.Store
