import FactoryIndex.Proofs.Outline.Completion
import FactoryIndex.Proofs.Store.Replacement

/-!
# What a file contributes to a store

Whoever writes to a store adds definitions that some reads have found, or takes definitions away. `Gains` says that an
operation does nothing else. A store `Mirrors` a text of a file if all it has of the file are definitions of that text.
It still does after the definitions of some reads have been filed, as long as every one of these reads that is of the
file has read that text.
-/

namespace FactoryIndex

/-! ### Definitions that are added -/

namespace ExpiringMap

variable {α : Type} {m : ExpiringMap α} {now : Int} {key other : String} {found : α}

theorem peek?_of_peek?_evict (hfound : (m.evict now key).peek? other = some found) : m.peek? other = some found := by
  unfold evict at hfound
  split at hfound
  · rw [peek?_erase] at hfound
    split at hfound
    · cases hfound
    · exact hfound
  · exact hfound

theorem eq_or_peek?_of_peek?_add {value : α} (hfound : (m.add now key value).peek? other = some found) :
    found = value ∨ m.peek? other = some found := by
  unfold add at hfound
  split at hfound
  · exact Or.inr hfound
  · rw [peek?_put] at hfound
    split at hfound
    · exact Or.inl (Option.some.inj hfound).symm
    · exact Or.inr (peek?_of_peek?_evict hfound)

end ExpiringMap

namespace Store

section Adds

variable {α : Type} {kind : Kind α} {before after : Store}

def Kind.Adds (kind : Kind α) (values : List α) (before after : Store) : Prop :=
  ∀ key value, kind.stored after key = some value → value ∈ values ∨ kind.stored before key = some value

theorem adds_of_put {now : Int} {key : String} {value : α}
    (hmap : kind.map after = (kind.map before).put now key value) : kind.Adds [value] before after := by
  intro other found hfound
  rw [Kind.stored, hmap, ExpiringMap.peek?_put] at hfound
  split at hfound
  · exact Or.inl (List.mem_singleton.2 (Option.some.inj hfound).symm)
  · exact Or.inr hfound

theorem adds_of_add {now : Int} {key : String} {value : α}
    (hmap : kind.map after = (kind.map before).add now key value) : kind.Adds [value] before after := by
  intro other found hfound
  rw [Kind.stored, hmap] at hfound
  rcases ExpiringMap.eq_or_peek?_of_peek?_add hfound with rfl | hbefore
  · exact Or.inl List.mem_cons_self
  · exact Or.inr hbefore

theorem Kind.Adds.foldl {β : Type} {step : Store → β → Store} {valueOf : β → α}
    (hstep : ∀ store item, kind.Adds [valueOf item] store (step store item)) (items : List β) (store : Store) :
    kind.Adds (items.map valueOf) store (items.foldl step store) := by
  induction items generalizing store with
  | nil => exact fun _ _ hstored => Or.inr hstored
  | cons item rest ih =>
      intro key value hstored
      rcases ih (step store item) key value hstored with hrest | hfirst
      · exact Or.inl (List.mem_cons_of_mem _ hrest)
      · rcases hstep store item key value hfirst with hitem | hbefore
        · rw [List.mem_singleton.1 hitem]
          exact Or.inl List.mem_cons_self
        · exact Or.inr hbefore

end Adds

variable {store : Store}

theorem adds_fill (clock : Nat → Clock) (factories : List Factory) (traits : List Trait) (store : Store) :
    Kind.factory.Adds factories store (store.fill clock factories traits) ∧
      Kind.trait.Adds traits store (store.fill clock factories traits) := by
  have hfactories : Kind.factory.Adds (factories.zipIdx.map Prod.fst) store
      (factories.zipIdx.foldl (fun store item => store.addFactory (clock item.2) item.1) store) :=
    .foldl (fun store item => adds_of_add (maps_addFactory (clock item.2) store item.1).1) _ _
  have htraits : Kind.trait.Adds ((traits.zipIdx factories.length).map Prod.fst)
      (factories.zipIdx.foldl (fun store item => store.addFactory (clock item.2) item.1) store)
      (store.fill clock factories traits) :=
    .foldl (fun store item => adds_of_add (maps_addTrait (clock item.2) store item.1).1) _ _
  rw [List.zipIdx_map_fst] at hfactories htraits
  constructor
  · intro name factory hstored
    apply hfactories name factory
    have hkept : (store.fill clock factories traits).factories =
        (factories.zipIdx.foldl (fun store item => store.addFactory (clock item.2) item.1) store).factories := by
      apply OrderedMap.view_foldl Store.factories
      exact fun store item => (maps_addTrait (clock item.2) store item.1).2
    rw [← hstored]
    exact (congrArg (·.peek? name) hkept).symm
  · intro key t hstored
    refine (htraits key t hstored).imp_right fun hbefore => ?_
    have hkept : (factories.zipIdx.foldl (fun store item => store.addFactory (clock item.2) item.1) store).traits =
        store.traits := by
      apply OrderedMap.view_foldl Store.traits
      exact fun store item => (maps_addFactory (clock item.2) store item.1).2
    rw [← hbefore]
    exact (congrArg (·.peek? key) hkept).symm

theorem adds_replaceFile (clock : Clock) (file : RawText) (factories : List Factory) (traits : List Trait)
    (modified : Option Int) (store : Store) :
    Kind.factory.Adds factories (store.removeFile file)
        (store.replaceFile clock file factories traits modified) ∧
      Kind.trait.Adds traits (store.removeFile file)
        (store.replaceFile clock file factories traits modified) := by
  have hfactories : Kind.factory.Adds (factories.map id) (store.removeFile file)
      (factories.foldl (upsertFactory clock) (store.removeFile file)) :=
    .foldl (fun store factory => adds_of_put (maps_upsertFactory clock store factory).1) _ _
  have htraits : Kind.trait.Adds (traits.map id) (factories.foldl (upsertFactory clock) (store.removeFile file))
      (traits.foldl (upsertTrait clock) (factories.foldl (upsertFactory clock) (store.removeFile file))) :=
    .foldl (fun store t => adds_of_put (maps_upsertTrait clock store t).1) _ _
  rw [List.map_id] at hfactories htraits
  constructor
  · intro name factory hstored
    have hkept := Kind.Keeps.foldl (keeps_upsertTrait clock) traits
      (factories.foldl (upsertFactory clock) (store.removeFile file))
    have hstamp : Kind.factory.Keeps _ (store.replaceFile clock file factories traits modified) :=
      keeps_ensureFile _ file clock (FileEntry.stamp (modified.getD clock.wall)) fun _ => rfl
    rw [(hkept.trans hstamp).stored_eq] at hstored
    exact hfactories name factory hstored
  · intro key t hstored
    have hkept : Kind.trait.Keeps (store.removeFile file)
        (factories.foldl (upsertFactory clock) (store.removeFile file)) :=
      Kind.Keeps.foldl (keeps_upsertFactory clock) factories _
    have hstamp : Kind.trait.Keeps _ (store.replaceFile clock file factories traits modified) :=
      keeps_ensureFile _ file clock (FileEntry.stamp (modified.getD clock.wall)) fun _ => rfl
    rw [hstamp.stored_eq] at hstored
    refine (htraits key t hstored).imp_right fun hbefore => ?_
    rwa [hkept.stored_eq] at hbefore

/-! ### Definitions of one text -/

section Mirrors

variable {α : Type} {kind : Kind α} {view : Outline → List α} {mode : BlockMode} {text : Option (List Char)}
  {file : RawText} {reads : List FileRead} {before after : Store}

/-- An outline lists the definitions of a kind, all of them located in the file that was parsed. -/
structure Kind.ListedBy (kind : Kind α) (view : Outline → List α) : Prop where
  view_empty : view {} = []
  fileOf_eq : ∀ {mode text file value}, value ∈ view (Outline.parse mode text file) → kind.fileOf value = file

/-- All definitions of a kind that are located in a file are defined by the given text of it. -/
def Kind.Mirrors (kind : Kind α) (view : Outline → List α) (mode : BlockMode) (text : Option (List Char))
    (file : RawText) (store : Store) : Prop :=
  ∀ key value, kind.stored store key = some value → kind.fileOf value = file →
    ∃ source, text = some source ∧ value ∈ view (Outline.parse mode source file)

/-- All definitions of a kind were stored before or were found by one of the reads. -/
def Kind.Gains (kind : Kind α) (view : Outline → List α) (mode : BlockMode) (reads : List FileRead)
    (before after : Store) : Prop :=
  ∀ key value, kind.stored after key = some value →
    (∃ read ∈ reads, value ∈ view (Outline.isolated mode read).1) ∨ kind.stored before key = some value

theorem Kind.Attributed.mirrors (h : kind.Attributed after) (hnone : after.files.get? file = none) :
    kind.Mirrors view mode text file after := by
  intro key value hstored hfile
  obtain ⟨entry, hentry, -⟩ := (h.noted_iff file key).2 ⟨value, hstored, hfile⟩
  rw [hnone] at hentry
  cases hentry

/-- What reads have found is from the text that was read last if each of them has read that text. -/
theorem Kind.Mirrors.gains (hlisted : kind.ListedBy view) (h : kind.Mirrors view mode text file before)
    (hgains : kind.Gains view mode reads before after)
    (hlast : ∀ read ∈ reads, read.file = file → ∀ source, read.outcome = .ok source → text = some source) :
    kind.Mirrors view mode text file after := by
  intro key value hstored hfile
  rcases hgains key value hstored with ⟨read, hread, hmem⟩ | hbefore
  · rw [Outline.outline_isolated] at hmem
    split at hmem
    · next source hsource =>
      have hsame : read.file = file := (hlisted.fileOf_eq hmem).symm.trans hfile
      rw [hsame] at hmem
      exact ⟨source, hlast read hread hsame source hsource, hmem⟩
    · rw [hlisted.view_empty] at hmem
      cases hmem
  · exact h key value hbefore hfile

theorem Kind.Replaces.gains (h : kind.Replaces file [] before after) : kind.Gains view mode [] before after := by
  intro key value hstored
  have hkept := ((h key value).1 hstored).resolve_left fun hnew => List.not_mem_nil hnew.1
  exact Or.inr hkept.1

end Mirrors

theorem listedBy_factories : Kind.factory.ListedBy Outline.factories :=
  ⟨rfl, fun hmem => Outline.file_of_mem_factories_parse hmem⟩

theorem listedBy_traits : Kind.trait.ListedBy Outline.traits :=
  ⟨rfl, fun hmem => Outline.file_of_mem_traits_parse hmem⟩

/-- All definitions that are located in a file are defined by the given text of it. -/
structure Mirrors (mode : BlockMode) (text : Option (List Char)) (file : RawText) (store : Store) : Prop where
  factories : Kind.factory.Mirrors Outline.factories mode text file store
  traits : Kind.trait.Mirrors Outline.traits mode text file store

/-- All definitions were stored before or were found by one of the reads. -/
structure Gains (mode : BlockMode) (reads : List FileRead) (before after : Store) : Prop where
  factories : Kind.factory.Gains Outline.factories mode reads before after
  traits : Kind.trait.Gains Outline.traits mode reads before after

variable {mode : BlockMode} {text : Option (List Char)} {file : RawText} {reads : List FileRead} {after : Store}

theorem Attributed.mirrors (h : store.Attributed) (hnone : store.files.get? file = none) :
    store.Mirrors mode text file :=
  ⟨h.factories.mirrors hnone, h.traits.mirrors hnone⟩

theorem Mirrors.gains (h : store.Mirrors mode text file) (hgains : Gains mode reads store after)
    (hlast : ∀ read ∈ reads, read.file = file → ∀ source, read.outcome = .ok source → text = some source) :
    after.Mirrors mode text file :=
  ⟨h.factories.gains listedBy_factories hgains.factories hlast, h.traits.gains listedBy_traits hgains.traits hlast⟩

theorem Attributed.gains_removeFile (h : store.Attributed) (file : RawText) :
    Gains mode [] store (store.removeFile file) :=
  ⟨(replaces_removeFile h file).1.gains, (replaces_removeFile h file).2.gains⟩

theorem gains_replaceFile (mode : BlockMode) (clock : Clock) (file : RawText) (read : FileRead)
    (modified : Option Int) (store : Store) :
    Gains mode [read] (store.removeFile file)
      (store.replaceFile clock file (Outline.isolated mode read).1.factories
        (Outline.isolated mode read).1.traits modified) := by
  obtain ⟨hfactories, htraits⟩ := adds_replaceFile clock file (Outline.isolated mode read).1.factories
    (Outline.isolated mode read).1.traits modified store
  constructor
  · intro name factory hstored
    exact (hfactories name factory hstored).imp_left fun hmem => ⟨read, List.mem_cons_self, hmem⟩
  · intro key t hstored
    exact (htraits key t hstored).imp_left fun hmem => ⟨read, List.mem_cons_self, hmem⟩

theorem get?_removeFile (store : Store) (file : RawText) : (store.removeFile file).files.get? file = none := by
  unfold removeFile
  split
  · rw [OrderedMap.get?_erase, if_pos rfl]
  · next hnone => exact hnone

end Store

end FactoryIndex
