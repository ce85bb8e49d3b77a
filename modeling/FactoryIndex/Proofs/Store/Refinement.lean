import FactoryIndex.Proofs.Store.Ledger

/-!
# A store answers as its ledger does

`Reflects` ties a store to its ledger: the two maps track the two books, and the entries of the files tell the
same times of modification. One call carries the relation on and gives the same answer on both sides, so a run
of any length does. That a store evicts, sweeps and notes names for its files is then nobody's concern: a call
that does nothing to a ledger may be made or left out anywhere in a run.
-/

namespace FactoryIndex.Store

/-! ### When files were modified -/

def modifiedOf (store : Store) (file : RawText) : Option Int :=
  (store.files.get? file).map FileEntry.lastModified

section Modified

variable (change : FileEntry → FileEntry) (hchange : ∀ entry, (change entry).lastModified = entry.lastModified)

include hchange

theorem modifiedOf_updateFile (store : Store) (file : RawText) :
    (store.updateFile file change).modifiedOf = store.modifiedOf := by
  funext other
  unfold modifiedOf
  rw [get?_updateFile]
  by_cases hother : other = file
  · rw [if_pos hother, hother, Option.map_map]
    congr 1
    funext entry
    exact hchange entry
  · rw [if_neg hother]

theorem modifiedOf_mapValues {before after : Store} (hfiles : after.files = before.files.mapValues change) :
    after.modifiedOf = before.modifiedOf := by
  funext other
  unfold modifiedOf
  rw [hfiles, OrderedMap.get?_mapValues, Option.map_map]
  congr 1
  funext entry
  exact hchange entry

theorem modifiedOf_ensureFile (clock : Clock) (store : Store) (file other : RawText) :
    (store.ensureFile clock file change).modifiedOf other =
      if other = file then some ((store.modifiedOf file).getD clock.wall) else store.modifiedOf other := by
  unfold modifiedOf
  rw [get?_ensureFile]
  by_cases hother : other = file
  · rw [if_pos hother, if_pos hother, Option.map_some, hchange]
    cases store.files.get? file with
    | none => rfl
    | some entry => rfl
  · rw [if_neg hother, if_neg hother]

end Modified

/-- A definition that way was made for is put into its map, and then its file is stamped if it was not known. -/
theorem modifiedOf_upsert {α : Type} (kind : Kind α)
    (hadd : ∀ key entry, (kind.add key entry).lastModified = entry.lastModified)
    (hdrop : ∀ key entry, (kind.drop key entry).lastModified = entry.lastModified) (clock : Clock) (store : Store)
    (value : α) {put : Store} (hfiles : put.files = (kind.release store value).files) (other : RawText) :
    (put.ensureFile clock (kind.fileOf value) (kind.add (kind.keyOf value))).modifiedOf other =
      if other = kind.fileOf value then some ((store.modifiedOf (kind.fileOf value)).getD clock.wall)
      else store.modifiedOf other := by
  have hrelease : (kind.release store value).modifiedOf = store.modifiedOf :=
    view_release modifiedOf (fun store file key => modifiedOf_updateFile _ (hdrop key) store file) store value
  have hput : put.modifiedOf = store.modifiedOf := by
    rw [← hrelease]
    funext file
    rw [modifiedOf, hfiles, modifiedOf]
  rw [modifiedOf_ensureFile (kind.add (kind.keyOf value)) (hadd _), hput]

theorem modifiedOf_removeFile (store : Store) (file other : RawText) :
    (store.removeFile file).modifiedOf other = if other = file then none else store.modifiedOf other := by
  unfold removeFile modifiedOf
  split
  · rw [OrderedMap.get?_erase]
    split <;> rfl
  · next hnone =>
    by_cases hother : other = file
    · rw [if_pos hother, hother, hnone]
      rfl
    · rw [if_neg hother]

/-! ### Operations that only leave out -/

/-- A store holds nothing but what another one does, and knows the same files. -/
structure Shrinks (before after : Store) : Prop where
  factories : after.factories.PartOf before.factories
  traits : after.traits.PartOf before.traits
  modified : after.modifiedOf = before.modifiedOf

namespace Shrinks

variable {before middle after : Store}

theorem refl (store : Store) : Shrinks store store := ⟨.refl _, .refl _, rfl⟩

theorem trans (hleft : Shrinks before middle) (hright : Shrinks middle after) : Shrinks before after :=
  ⟨hright.factories.trans hleft.factories, hright.traits.trans hleft.traits,
    hright.modified.trans hleft.modified⟩

theorem foldl {β : Type} {step : Store → β → Store} (hstep : ∀ store item, Shrinks store (step store item))
    (items : List β) (store : Store) : Shrinks store (items.foldl step store) := by
  induction items generalizing store with
  | nil => exact refl store
  | cons item rest ih => exact (hstep store item).trans (ih (step store item))

theorem updateFile (change : FileEntry → FileEntry)
    (hchange : ∀ entry, (change entry).lastModified = entry.lastModified) (store : Store) (file : RawText) :
    Shrinks store (store.updateFile file change) := by
  refine ⟨?_, ?_, modifiedOf_updateFile change hchange store file⟩
  · rw [factories_updateFile]
    exact .refl _
  · rw [traits_updateFile]
    exact .refl _

theorem forgetFactory (store : Store) (name : String) : Shrinks store (store.forgetFactory name) :=
  ⟨.refl _, .refl _, modifiedOf_mapValues (FileEntry.dropFactory name) (fun _ => rfl) rfl⟩

theorem forgetTrait (store : Store) (key : String) : Shrinks store (store.forgetTrait key) :=
  ⟨.refl _, .refl _, modifiedOf_mapValues (FileEntry.dropTrait key) (fun _ => rfl) rfl⟩

theorem eraseFactory (store : Store) (name : String) :
    Shrinks store { store with factories := store.factories.erase name } :=
  ⟨ExpiringMap.partOf_erase _ name, .refl _, rfl⟩

theorem eraseTrait (store : Store) (key : String) :
    Shrinks store { store with traits := store.traits.erase key } :=
  ⟨.refl _, ExpiringMap.partOf_erase _ key, rfl⟩

theorem touchFactory (clock : Clock) (store : Store) (name : String) :
    Shrinks store (store.touchFactory clock name) := by
  unfold Store.touchFactory
  split
  · exact (eraseFactory store name).trans (forgetFactory _ name)
  · exact refl store

theorem touchTrait (clock : Clock) (store : Store) (factory name : String) :
    Shrinks store (store.touchTrait clock factory name) := by
  simp only [Store.touchTrait]
  split
  · exact (eraseTrait store _).trans (forgetTrait _ _)
  · exact refl store

theorem removeFactory (store : Store) (name : String) : Shrinks store (store.removeFactory name) := by
  have halone : Shrinks store (store.removeFactoryAlone name) := by
    unfold removeFactoryAlone
    split
    · exact (eraseFactory store name).trans (updateFile (FileEntry.dropFactory name) (fun _ => rfl) _ _)
    · exact refl store
  have htrait : ∀ (store : Store) (item : String × Trait), Shrinks store (store.removeTrait item.1 item.2) :=
    fun store item => (eraseTrait store item.1).trans
      (updateFile (FileEntry.dropTrait item.1) (fun _ => rfl) _ _)
  exact halone.trans (foldl htrait _ _)

theorem cleanup (clock : Clock) (store : Store) : Shrinks store (store.cleanup clock) := by
  have hsweep : Shrinks store { store with
      factories := store.factories.sweep clock.monotonic
      traits := store.traits.sweep clock.monotonic } :=
    ⟨ExpiringMap.partOf_sweep _ _, ExpiringMap.partOf_sweep _ _, rfl⟩
  exact hsweep.trans ((foldl forgetFactory _ _).trans (foldl forgetTrait _ _))

end Shrinks

theorem partOf_removeFile (store : Store) (file : RawText) :
    (store.removeFile file).factories.PartOf store.factories ∧
      (store.removeFile file).traits.PartOf store.traits := by
  unfold removeFile
  split
  · exact ⟨ExpiringMap.partOf_foldl_erase _ _, ExpiringMap.partOf_foldl_erase _ _⟩
  · exact ⟨.refl _, .refl _⟩

/-! ### One call -/

/-- A store that a ledger describes at the given time. -/
structure Reflects (now : Int) (ledger : Ledger) (store : Store) : Prop where
  attributed : Attributed store
  ttl_pos : 0 < ledger.ttl
  factories_lifetime : store.factories.lifetime = ledger.ttl
  traits_lifetime : store.traits.lifetime = ledger.ttl
  factories : store.factories.Tracks now ledger.factories
  traits : store.traits.Tracks now ledger.traits
  modified : ∀ file, store.modifiedOf file = ledger.modified file

namespace Reflects

variable {now : Int} {ledger : Ledger} {store : Store} {clock : Clock}

theorem factory?_eq (h : Reflects clock.monotonic ledger store) (name : String) :
    store.factory? clock name = ledger.factory? clock name := by
  rw [factory?, h.factories.live?_eq, h.factories_lifetime, Ledger.factory?]

theorem trait?_eq (h : Reflects clock.monotonic ledger store) (factory name : String) :
    store.trait? clock factory name = ledger.trait? clock factory name := by
  rw [trait?, h.traits.live?_eq, h.traits_lifetime, Ledger.trait?]

theorem shouldReindex_eq_ledger (h : Reflects now ledger store) (file : RawText) (modified : Int) :
    store.shouldReindex file modified = ledger.shouldReindex file modified := by
  unfold Store.shouldReindex Ledger.shouldReindex
  rw [← h.modified, modifiedOf]
  cases store.files.get? file with
  | none => rfl
  | some entry => rfl

theorem later {now' : Int} (h : Reflects now ledger store) (hnow : now ≤ now') : Reflects now' ledger store := by
  have hfactories : 0 < store.factories.lifetime := h.factories_lifetime ▸ h.ttl_pos
  have htraits : 0 < store.traits.lifetime := h.traits_lifetime ▸ h.ttl_pos
  exact { h with
    factories := h.factories.later rfl hfactories (le_refl _) hnow
    traits := h.traits.later rfl htraits (le_refl _) hnow }

theorem empty {ttl : Int} (httl : 0 < ttl) (now : Int) : Reflects now (.empty ttl) (Store.empty ttl) :=
  { attributed := .of_empty (fun _ => rfl) (fun _ => rfl) rfl
    ttl_pos := httl
    factories_lifetime := rfl
    traits_lifetime := rfl
    factories := fun _ => Or.inl rfl
    traits := fun _ => Or.inl rfl
    modified := fun _ => rfl }

theorem upsertFactory (h : Reflects now ledger store) (clock : Clock) (factory : Factory) :
    Reflects now (ledger.writeFactory clock factory) (store.upsertFactory clock factory) := by
  obtain ⟨hfactories, htraits⟩ := maps_upsertFactory clock store factory
  refine
    { attributed := h.attributed.upsertFactory clock store factory
      ttl_pos := h.ttl_pos
      factories_lifetime := by rw [hfactories]; exact h.factories_lifetime
      traits_lifetime := by rw [htraits]; exact h.traits_lifetime
      factories := by rw [hfactories]; exact h.factories.put clock.monotonic factory.name factory
      traits := by rw [htraits]; exact h.traits
      modified := fun file => ?_ }
  rw [Store.upsertFactory, releaseFactory_eq]
  refine (modifiedOf_upsert .factory (fun _ _ => rfl) (fun _ _ => rfl) clock store factory ?_ file).trans ?_
  · rfl
  · rw [h.modified, h.modified]
    rfl

theorem upsertTrait (h : Reflects now ledger store) (clock : Clock) (t : Trait) :
    Reflects now (ledger.writeTrait clock t) (store.upsertTrait clock t) := by
  obtain ⟨htraits, hfactories⟩ := maps_upsertTrait clock store t
  refine
    { attributed := h.attributed.upsertTrait clock store t
      ttl_pos := h.ttl_pos
      factories_lifetime := by rw [hfactories]; exact h.factories_lifetime
      traits_lifetime := by rw [htraits]; exact h.traits_lifetime
      factories := by rw [hfactories]; exact h.factories
      traits := by rw [htraits]; exact h.traits.put clock.monotonic t.key t
      modified := fun file => ?_ }
  rw [Store.upsertTrait, releaseTrait_eq]
  refine (modifiedOf_upsert .trait (fun _ _ => rfl) (fun _ _ => rfl) clock store t ?_ file).trans ?_
  · rfl
  · rw [h.modified, h.modified]
    rfl

/-- A ledger does not show that expired definitions are left out. -/
theorem shrink {after : Store} (h : Reflects now ledger store) (hattributed : Attributed after)
    (hshrinks : Shrinks store after)
    (hfactories : ∀ name, store.factories.hasExpired now name = false →
      after.factories.peek? name = store.factories.peek? name)
    (htraits : ∀ key, store.traits.hasExpired now key = false → after.traits.peek? key = store.traits.peek? key) :
    Reflects now ledger after :=
  { attributed := hattributed
    ttl_pos := h.ttl_pos
    factories_lifetime := hshrinks.factories.1.trans h.factories_lifetime
    traits_lifetime := hshrinks.traits.1.trans h.traits_lifetime
    factories := h.factories.shrink hshrinks.factories hfactories
    traits := h.traits.shrink hshrinks.traits htraits
    modified := fun file => by rw [hshrinks.modified, h.modified] }

theorem touchFactory (h : Reflects clock.monotonic ledger store) (name : String) :
    Reflects clock.monotonic ledger (store.touchFactory clock name) := by
  refine h.shrink (h.attributed.touchFactory clock name) (.touchFactory clock store name)
    (fun key hlive => ?_) fun key _ => (keeps_touchFactory clock store name).stored_eq key
  apply (drops_touchFactory clock store name).stored_of_not_gone
  rintro ⟨rfl, hexpired⟩
  rw [hexpired] at hlive
  cases hlive

theorem touchTrait (h : Reflects clock.monotonic ledger store) (factory name : String) :
    Reflects clock.monotonic ledger (store.touchTrait clock factory name) := by
  refine h.shrink (h.attributed.touchTrait clock factory name) (.touchTrait clock store factory name)
    (fun key _ => (keeps_touchTrait clock store factory name).stored_eq key) fun key hlive => ?_
  apply (drops_touchTrait clock store factory name).stored_of_not_gone
  rintro ⟨rfl, hexpired⟩
  rw [hexpired] at hlive
  cases hlive

theorem cleanup (h : Reflects clock.monotonic ledger store) :
    Reflects clock.monotonic ledger (store.cleanup clock) := by
  refine h.shrink (h.attributed.cleanup clock) (.cleanup clock store) (fun name hlive => ?_) fun key hlive => ?_
  · exact (drops_cleanup clock store).stored_of_not_gone name (by simp [hlive])
  · exact (drops_cleanup_traits clock store).stored_of_not_gone key (by simp [hlive])

theorem addFactory (h : Reflects clock.monotonic ledger store) (factory : Factory) :
    Reflects clock.monotonic (ledger.addFactory clock factory) (store.addFactory clock factory) := by
  unfold Store.addFactory Ledger.addFactory
  rw [← h.factory?_eq]
  cases store.factory? clock factory.name with
  | some found => exact h
  | none => exact (h.touchFactory factory.name).upsertFactory clock factory

theorem addTrait (h : Reflects clock.monotonic ledger store) (t : Trait) :
    Reflects clock.monotonic (ledger.addTrait clock t) (store.addTrait clock t) := by
  unfold Store.addTrait Ledger.addTrait
  rw [← h.trait?_eq]
  cases store.trait? clock t.factory t.name with
  | some found => exact h
  | none => exact (h.touchTrait t.factory t.name).upsertTrait clock t

theorem removeFactory (h : Reflects now ledger store) (name : String) :
    Reflects now (ledger.removeFactory name) (store.removeFactory name) := by
  have hshrinks := Shrinks.removeFactory store name
  have hfactories := drops_removeFactory h.attributed.factories name
  have htraits := drops_removeFactory_traits h.attributed.traits name
  refine
    { attributed := h.attributed.removeFactory name
      ttl_pos := h.ttl_pos
      factories_lifetime := hshrinks.factories.1.trans h.factories_lifetime
      traits_lifetime := hshrinks.traits.1.trans h.traits_lifetime
      factories := ?_
      traits := ?_
      modified := fun file => by rw [hshrinks.modified, h.modified]; rfl }
  · show ExpiringMap.Tracks now (ledger.factories.keep fun key _ => key ≠ name) _
    refine h.factories.keep hshrinks.factories fun key factory hfactory => ?_
    by_cases hkey : key = name
    · rw [if_neg (by simp [hkey])]
      exact hfactories.stored_of_gone key hkey
    · rw [if_pos (by simp [hkey]), ← hfactory]
      exact hfactories.stored_of_not_gone key hkey
  · show ExpiringMap.Tracks now (ledger.traits.keep fun _ t => t.factory ≠ name) _
    refine h.traits.keep hshrinks.traits fun key t ht => ?_
    by_cases howner : t.factory = name
    · rw [if_neg (by simp [howner])]
      exact htraits.stored_of_gone key ⟨t, ht, howner⟩
    · rw [if_pos (by simp [howner]), ← ht]
      apply htraits.stored_of_not_gone
      rintro ⟨other, hother, hfactory⟩
      rw [← Option.some.inj (ht.symm.trans hother)] at hfactory
      exact howner hfactory

theorem removeFile (h : Reflects now ledger store) (file : RawText) :
    Reflects now (ledger.removeFile file) (store.removeFile file) := by
  obtain ⟨hfactories, htraits⟩ := partOf_removeFile store file
  have hgone := drops_removeFile h.attributed.factories file
  have hgone' := drops_removeFile_traits h.attributed.traits file
  refine
    { attributed := h.attributed.removeFile file
      ttl_pos := h.ttl_pos
      factories_lifetime := hfactories.1.trans h.factories_lifetime
      traits_lifetime := htraits.1.trans h.traits_lifetime
      factories := ?_
      traits := ?_
      modified := fun other => ?_ }
  -- A file notes exactly what is located in it, so to remove what it notes is to remove that.
  · show ExpiringMap.Tracks now (ledger.factories.keep fun _ factory => factory.location.file ≠ file) _
    refine h.factories.keep hfactories fun key factory hfactory => ?_
    have hnoted := h.attributed.factories.noted_iff_of_stored hfactory file
    by_cases hfile : factory.location.file = file
    · rw [if_neg (by simp [hfile])]
      exact hgone.stored_of_gone key (hnoted.2 hfile.symm)
    · rw [if_pos (by simp [hfile]), ← hfactory]
      exact hgone.stored_of_not_gone key fun hin => hfile (hnoted.1 hin).symm
  · show ExpiringMap.Tracks now (ledger.traits.keep fun _ t => t.location.file ≠ file) _
    refine h.traits.keep htraits fun key t ht => ?_
    have hnoted := h.attributed.traits.noted_iff_of_stored ht file
    by_cases hfile : t.location.file = file
    · rw [if_neg (by simp [hfile])]
      exact hgone'.stored_of_gone key (hnoted.2 hfile.symm)
    · rw [if_pos (by simp [hfile]), ← ht]
      exact hgone'.stored_of_not_gone key fun hin => hfile (hnoted.1 hin).symm
  · rw [modifiedOf_removeFile, h.modified]
    rfl

theorem foldl {β : Type} {step : Store → β → Store} {step' : Ledger → β → Ledger}
    (hstep : ∀ ledger store item, Reflects now ledger store → Reflects now (step' ledger item) (step store item))
    (items : List β) (h : Reflects now ledger store) :
    Reflects now (items.foldl step' ledger) (items.foldl step store) := by
  induction items generalizing ledger store with
  | nil => exact h
  | cons item rest ih => exact ih (hstep ledger store item h)

theorem replaceFile (h : Reflects now ledger store) (clock : Clock) (file : RawText) (factories : List Factory)
    (traits : List Trait) (modified : Option Int) :
    Reflects now (ledger.replaceFile clock file factories traits modified)
      (store.replaceFile clock file factories traits modified) := by
  have hfactories := (h.removeFile file).foldl (fun _ _ factory hstep => hstep.upsertFactory clock factory) factories
  have htraits := hfactories.foldl (fun _ _ t hstep => hstep.upsertTrait clock t) traits
  refine
    { attributed := h.attributed.replaceFile clock file factories traits modified
      ttl_pos := htraits.ttl_pos
      factories_lifetime := htraits.factories_lifetime
      traits_lifetime := htraits.traits_lifetime
      factories := htraits.factories
      traits := htraits.traits
      modified := fun other => ?_ }
  unfold Store.replaceFile Ledger.replaceFile modifiedOf
  rw [get?_ensureFile]
  by_cases hother : other = file
  · simp only [hother, if_true]
    rfl
  · simp only [hother, if_false]
    exact htraits.modified other

theorem clear (h : Reflects now ledger store) : Reflects now (.empty ledger.ttl) store.clear :=
  { attributed := .clear store
    ttl_pos := h.ttl_pos
    factories_lifetime := h.factories_lifetime
    traits_lifetime := h.traits_lifetime
    factories := fun _ => Or.inl rfl
    traits := fun _ => Or.inl rfl
    modified := fun _ => rfl }

end Reflects

/-! ### Runs -/

def Operation.newTtl? : Operation → Option Int
  | .setTtl ttl =>
      match ttl.toInt with
      | .ok n => if fitsSeconds (boundedTtl n) then some (boundedTtl n) else none
      | .error _ => none
  | _ => none

/-- What a caller learns about definitions. The number of those that a clean-up removed says only how long they
had lain there. -/
def Answer.told : Answer → Answer
  | .count _ => .nothing
  | answer => answer

/-- A call that tells something, or makes room, and writes nothing. -/
def Operation.quiet : Operation → Bool
  | .findFactory _ | .findTrait _ _ | .shouldReindex _ _ | .cleanup => true
  | _ => false

/-- A call at a moment. One that is `extra` is marked to be left out of the run. -/
structure Call where
  moment : Moment
  operation : Operation
  extra : Bool := false

def Call.newTtl? (call : Call) : Option Int := call.operation.newTtl?

/-- The calls of a run, each with what it told. -/
def transcript {σ : Type} (perform : Clock → σ → Operation → σ × Except Failure Answer) :
    σ → List Call → List (Call × Except Failure Answer)
  | _, [] => []
  | state, call :: rest =>
      let result := perform call.moment.clock state call.operation
      (call, result.2.map Answer.told) :: transcript perform result.1 rest

/-- The clock never goes back, and the time to live is never prolonged. -/
structure Orderly (ttl : Int) (calls : List Call) : Prop where
  clock : (calls.map fun call => call.moment.clock.monotonic).Pairwise (· ≤ ·)
  ttl : (ttl :: calls.filterMap Call.newTtl?).Pairwise (· ≥ ·)

theorem Reflects.setTtl {now : Int} {ledger : Ledger} {store : Store} (h : Reflects now ledger store) (ttl : Value)
    (hshorter : ∀ n ∈ (Operation.setTtl ttl).newTtl?, n ≤ ledger.ttl) :
    Reflects now (ledger.setTtl ttl).1 (store.setTtl ttl).1 ∧ (store.setTtl ttl).2 = (ledger.setTtl ttl).2 := by
  have hattributed := h.attributed.setTtl ttl
  unfold Store.setTtl Ledger.setTtl at *
  unfold Operation.newTtl? at hshorter
  cases hint : ttl.toInt with
  | error fault => exact ⟨h, rfl⟩
  | ok n =>
      simp only [hint] at hattributed hshorter ⊢
      by_cases hfits : fitsSeconds (boundedTtl n) = true
      · simp only [if_pos hfits] at hattributed hshorter ⊢
        have hle : boundedTtl n ≤ ledger.ttl := hshorter _ rfl
        refine ⟨?_, trivial⟩
        exact {
          attributed := hattributed
          ttl_pos := boundedTtl_pos n
          factories_lifetime := rfl
          traits_lifetime := rfl
          factories := h.factories.later rfl (boundedTtl_pos n) (h.factories_lifetime ▸ hle) (le_refl now)
          traits := h.traits.later rfl (boundedTtl_pos n) (h.traits_lifetime ▸ hle) (le_refl now)
          modified := h.modified }
      · simp only [if_neg hfits] at hattributed ⊢
        exact ⟨{ h with attributed := hattributed }, trivial⟩

theorem ttl_perform (clock : Clock) (ledger : Ledger) (operation : Operation) :
    (ledger.perform clock operation).1.ttl = operation.newTtl?.getD ledger.ttl := by
  have hfactories (factories : List Factory) (ledger : Ledger) :
      (factories.foldl (Ledger.writeFactory clock) ledger).ttl = ledger.ttl := by
    induction factories generalizing ledger with
    | nil => rfl
    | cons factory rest ih => exact ih (ledger.writeFactory clock factory)
  have htraits (traits : List Trait) (ledger : Ledger) :
      (traits.foldl (Ledger.writeTrait clock) ledger).ttl = ledger.ttl := by
    induction traits generalizing ledger with
    | nil => rfl
    | cons t rest ih => exact ih (ledger.writeTrait clock t)
  cases operation with
  | addFactory factory =>
      simp only [Ledger.perform, Ledger.addFactory, Operation.newTtl?]
      split <;> rfl
  | addTrait t =>
      simp only [Ledger.perform, Ledger.addTrait, Operation.newTtl?]
      split <;> rfl
  | replaceFile file factories traits modified => exact (htraits traits _).trans (hfactories factories _)
  | setTtl ttl =>
      simp only [Ledger.perform, Ledger.setTtl, Operation.newTtl?]
      cases ttl.toInt with
      | error fault => rfl
      | ok n =>
          simp only
          split <;> rfl
  | _ => rfl

/-- **One call.** A store and its ledger tell the same, and the ledger goes on to describe the store. -/
theorem Reflects.perform {now : Int} {ledger : Ledger} {store : Store} (h : Reflects now ledger store)
    (moment : Moment) (operation : Operation) (hnow : now ≤ moment.clock.monotonic)
    (hshorter : ∀ n ∈ operation.newTtl?, n ≤ ledger.ttl) :
    Reflects moment.clock.monotonic (ledger.perform moment.clock operation).1
        (store.perform moment.clock operation).1 ∧
      (store.perform moment.clock operation).2.map Answer.told =
        (ledger.perform moment.clock operation).2.map Answer.told := by
  have hlater := h.later hnow
  have hmeasures := moment.measures
  have htellsDay := moment.tellsDay
  cases operation with
  | upsertFactory factory =>
      rw [Store.perform, Timed.upsertFactory_of_readable hmeasures htellsDay]
      exact ⟨hlater.upsertFactory moment.clock factory, rfl⟩
  | upsertTrait t =>
      rw [Store.perform, Timed.upsertTrait_of_readable hmeasures htellsDay]
      exact ⟨hlater.upsertTrait moment.clock t, rfl⟩
  | addFactory factory =>
      rw [Store.perform, Timed.addFactory_of_readable hmeasures htellsDay, hlater.factory?_eq]
      exact ⟨hlater.addFactory factory, rfl⟩
  | addTrait t =>
      rw [Store.perform, Timed.addTrait_of_readable hmeasures htellsDay, hlater.trait?_eq]
      exact ⟨hlater.addTrait t, rfl⟩
  | findFactory name =>
      rw [Store.perform, Timed.findFactory, if_pos hmeasures, hlater.factory?_eq]
      exact ⟨hlater.touchFactory name, rfl⟩
  | findTrait factory name =>
      rw [Store.perform, Timed.findTrait, if_pos hmeasures, hlater.trait?_eq]
      exact ⟨hlater.touchTrait factory name, rfl⟩
  | removeFactory name => exact ⟨hlater.removeFactory name, rfl⟩
  | removeFile file => exact ⟨hlater.removeFile file, rfl⟩
  | replaceFile file factories traits modified =>
      rw [Store.perform, Timed.replaceFile_of_readable hmeasures htellsDay]
      exact ⟨hlater.replaceFile moment.clock file factories traits modified, rfl⟩
  | shouldReindex file modified =>
      rw [Store.perform, hlater.shouldReindex_eq_ledger]
      exact ⟨hlater, rfl⟩
  | cleanup =>
      rw [Store.perform, Timed.cleanup, if_pos hmeasures]
      exact ⟨hlater.cleanup, rfl⟩
  | clear => exact ⟨hlater.clear, rfl⟩
  | setTtl ttl =>
      obtain ⟨hreflects, houtcome⟩ := hlater.setTtl ttl hshorter
      refine ⟨hreflects, ?_⟩
      simp only [Store.perform, answering, Ledger.perform, houtcome]
  | setInitialized initialized => exact ⟨{ hlater with attributed := hlater.attributed.setInitialized _ }, rfl⟩

theorem Reflects.transcript_eq {calls : List Call} {now : Int} {ledger : Ledger} {store : Store}
    (h : Reflects now ledger store)
    (hclock : (now :: calls.map fun call => call.moment.clock.monotonic).Pairwise (· ≤ ·))
    (httl : (ledger.ttl :: calls.filterMap Call.newTtl?).Pairwise (· ≥ ·)) :
    transcript Store.perform store calls = transcript Ledger.perform ledger calls := by
  induction calls generalizing now ledger store with
  | nil => rfl
  | cons call rest ih =>
      obtain ⟨hbefore, hafter⟩ := List.pairwise_cons.1 hclock
      have hshorter : ∀ n ∈ call.newTtl?, n ≤ ledger.ttl := by
        intro n hn
        refine (List.pairwise_cons.1 httl).1 n ?_
        rw [List.filterMap_cons_some hn]
        exact List.mem_cons_self ..
      obtain ⟨hreflects, htold⟩ :=
        h.perform call.moment call.operation (hbefore _ (List.mem_cons_self ..)) hshorter
      have httl' : ((ledger.perform call.moment.clock call.operation).1.ttl ::
          rest.filterMap Call.newTtl?).Pairwise (· ≥ ·) := by
        rw [ttl_perform]
        rw [← Call.newTtl?]
        cases hnew : call.newTtl? with
        | none => rwa [List.filterMap_cons_none hnew] at httl
        | some n =>
            rw [List.filterMap_cons_some hnew] at httl
            exact (List.pairwise_cons.1 httl).2
      simp only [transcript]
      rw [htold, ih hreflects hafter httl']

/-- A ledger is not changed by a call that writes nothing, so such calls may be left out. -/
theorem transcript_filter_ledger (ledger : Ledger) {calls : List Call}
    (hquiet : ∀ call ∈ calls, call.extra = true → call.operation.quiet = true) :
    (transcript Ledger.perform ledger calls).filter (fun told => !told.1.extra) =
      transcript Ledger.perform ledger (calls.filter fun call => !call.extra) := by
  induction calls generalizing ledger with
  | nil => rfl
  | cons call rest ih =>
      have hrest := fun ledger => ih ledger fun other hother => hquiet other (List.mem_cons_of_mem _ hother)
      cases hextra : call.extra with
      | false => simp [transcript, hextra, hrest]
      | true =>
          have hsame : (ledger.perform call.moment.clock call.operation).1 = ledger := by
            have hoperation := hquiet call (List.mem_cons_self ..) hextra
            generalize call.operation = operation at hoperation
            cases operation with
            | findFactory | findTrait | shouldReindex | cleanup => rfl
            | _ => cases hoperation
          simp [transcript, hextra, hrest, hsame]

theorem create_eq_ok {ttl : Value} {store : Store} (hcreate : create ttl = .ok store) :
    0 < store.ttl ∧ store = empty store.ttl := by
  unfold create at hcreate
  split at hcreate
  · cases hcreate
  · next n _ =>
    split at hcreate
    · cases hcreate
      exact ⟨boundedTtl_pos n, rfl⟩
    · cases hcreate

theorem Orderly.filter {ttl : Int} {calls : List Call} (h : Orderly ttl calls) (p : Call → Bool) :
    Orderly ttl (calls.filter p) :=
  ⟨h.clock.sublist (List.filter_sublist.map _), h.ttl.sublist ((List.filter_sublist.filterMap _).cons_cons _)⟩

theorem transcript_empty {ttl : Int} (httl : 0 < ttl) {calls : List Call} (horderly : Orderly ttl calls) :
    transcript perform (empty ttl) calls = transcript Ledger.perform (.empty ttl) calls := by
  cases calls with
  | nil => rfl
  | cons call rest =>
      -- A new store reflects an empty ledger at any time, so the run may start when its first call is made.
      refine (Reflects.empty httl call.moment.clock.monotonic).transcript_eq ?_ horderly.ttl
      refine List.pairwise_cons.2 ⟨fun time htime => ?_, horderly.clock⟩
      rcases List.mem_cons.1 htime with rfl | hrest
      · exact le_refl _
      · exact (List.pairwise_cons.1 horderly.clock).1 time hrest

/-- **A store answers as its ledger does.** In a run during which the clock does not go back and the time to live
is not prolonged, every call tells what it tells of a ledger, which evicts nothing and to which a clean-up does
nothing. So clean-ups and look-ups can be put into a run or left out, and the other calls tell the same. A ledger
finds what was written until the difference of the readings, as a double-precision number, is more than the time to
live in seconds: an entry is found at least for its time to live, and not longer by one part in `2 ^ 53`. -/
theorem run_refines {ttl : Value} {store : Store} (hcreate : create ttl = .ok store) {calls : List Call}
    (horderly : Orderly store.ttl calls) :
    transcript perform store calls = transcript Ledger.perform (.empty store.ttl) calls ∧
    ((∀ call ∈ calls, call.extra = true → call.operation.quiet = true) →
      (transcript perform store calls).filter (fun told => !told.1.extra) =
        transcript perform store (calls.filter fun call => !call.extra)) ∧
    (∀ {α : Type} (book : Book α) (ttl now : Int) (key : String) (entry : Entry α), book key = some entry → 0 < ttl →
      book.live? ttl now key =
        (if (elapsed entry.written now).ticks ≤ (seconds ttl).ticks then some entry.value else none) ∧
      (now - entry.written ≤ (seconds ttl).ticks → book.live? ttl now key = some entry.value) ∧
      (fitsSeconds ttl = true → (book.live? ttl now key).isSome = true →
        (2 ^ 53 - 1) * (now - entry.written) ≤ 2 ^ 53 * (seconds ttl).ticks)) := by
  obtain ⟨httl, hempty⟩ := create_eq_ok hcreate
  have hrun : transcript perform store calls = transcript Ledger.perform (.empty store.ttl) calls := by
    rw [hempty]
    exact transcript_empty httl horderly
  refine ⟨hrun, fun hquiet => ?_, fun book ttl now key entry hentry hpos => ?_⟩
  · have hless : transcript perform store (calls.filter fun call => !call.extra) =
        transcript Ledger.perform (.empty store.ttl) (calls.filter fun call => !call.extra) := by
      rw [hempty]
      exact transcript_empty httl (horderly.filter _)
    rw [hrun, hless, transcript_filter_ledger _ hquiet]
  · have hlive : book.live? ttl now key = if outlasts entry.written now ttl then none else some entry.value := by
      rw [Book.live?, hentry]
    rw [hlive]
    refine ⟨?_, fun hage => ?_, fun hfits hfound => ?_⟩
    · simp only [outlasts_iff, ← not_lt, ite_not]
    · rw [not_outlasts_of_le hpos.le hage, if_neg Bool.false_ne_true]
    · cases hexpired : outlasts entry.written now ttl with
      | false => exact le_of_not_outlasts hpos.le hfits hexpired
      | true =>
          rw [hexpired, if_pos rfl] at hfound
          cases hfound

/-- A factory that was written 4.4 seconds after the clock was started is found 59.999 seconds later. After 60 seconds
it is not, whether or not it is swept before: the difference of the readings comes out as more than that. Then the
shorter time to live holds. -/
theorem run_refines_expired :
    let user : Factory := { name := "user", location := { file := "a.rb", line := 0 } }
    let moment (time : Int) (htime : readable (reading time) = true) : Moment :=
      ⟨⟨reading time, reading time⟩, htime, htime⟩
    let calls : List Call := [
      { moment := moment 4400 (by decide +kernel), operation := .upsertFactory user },
      { moment := moment 64399 (by decide +kernel), operation := .findFactory "user" },
      { moment := moment 64400 (by decide +kernel), operation := .cleanup, extra := true },
      { moment := moment 64400 (by decide +kernel), operation := .findFactory "user" },
      { moment := moment 64400 (by decide +kernel), operation := .addFactory user },
      { moment := moment 64400 (by decide +kernel), operation := .setTtl (.int 1000) },
      { moment := moment 65401 (by decide +kernel), operation := .findFactory "user" }]
    Orderly 60000 calls ∧
    ((transcript perform (empty 60000) calls).filterMap fun told =>
      match told.2 with
      | .ok (.factory found) => some (found.map Factory.name)
      | _ => none) = [some "user", none, none] ∧
    transcript perform (empty 60000) calls = transcript Ledger.perform (.empty 60000) calls ∧
    (transcript perform (empty 60000) calls).filter (fun told => !told.1.extra) =
      transcript perform (empty 60000) (calls.filter fun call => !call.extra) := by
  intro user moment calls
  have hcreate : create (.int 60000) = .ok (empty 60000) := by rfl
  have horderly : Orderly 60000 calls := ⟨by decide +kernel, by decide +kernel⟩
  obtain ⟨hsame, hless, -⟩ := run_refines hcreate horderly
  exact ⟨horderly, by decide +kernel, hsame, hless (by decide)⟩

end FactoryIndex.Store
