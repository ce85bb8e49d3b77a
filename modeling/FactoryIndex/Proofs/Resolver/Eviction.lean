import FactoryIndex.Proofs.Store.Attribution
import FactoryIndex.Resolver

/-!
# What resolving does to a store

To resolve a text is to look definitions up, and each look-up removes what it asks for if that has expired. So a text
is not resolved in the store that the one before it was resolved in, nor is a symbol looked up in the store that the
symbol before it was. None of this shows at one reading of the clock: whatever is missing from a later store had
expired, and was as good as missing from the first one.

`Store.without` is the store with some definitions taken out, from the maps and from the notes of all files. Every
store on the way is one of these, with nothing but expired definitions taken out.
-/

namespace FactoryIndex

/-! ### Taking out -/

namespace OrderedMap

variable {κ α : Type}

theorem filter_filter (p q : κ → α → Bool) (m : OrderedMap κ α) :
    (m.filter p).filter q = m.filter fun key value => p key value && q key value := by
  simp only [filter, List.filter_filter, Bool.and_comm]

theorem mapValues_mapValues {β γ : Type} (f : α → β) (g : β → γ) (m : OrderedMap κ α) :
    (m.mapValues f).mapValues g = m.mapValues fun value => g (f value) := by
  simp only [mapValues, List.map_map, Function.comp_def]

end OrderedMap

namespace ExpiringMap

variable {α : Type} {m : ExpiringMap α} {now : Int} {keys : List String}

/-- The map without some keys; all others keep their values, their times and their order. -/
def without (m : ExpiringMap α) (keys : List String) : ExpiringMap α :=
  { m with entries := m.entries.filter fun key _ => decide (key ∉ keys) }

theorem without_nil (m : ExpiringMap α) : m.without [] = m := by
  obtain ⟨lifetime, entries, nodup⟩ := m
  have hentries : entries.filter (fun entry => decide (entry.1 ∉ [])) = entries :=
    List.filter_eq_self.2 fun _ _ => decide_eq_true List.not_mem_nil
  simp only [without, OrderedMap.filter, hentries]

theorem get?_without (m : ExpiringMap α) (keys : List String) (key : String) :
    (m.without keys).entries.get? key = if key ∈ keys then none else m.entries.get? key := by
  rw [without, OrderedMap.get?_filter]
  by_cases hkey : key ∈ keys
  · rw [if_pos hkey, Option.filter_eq_none_iff]
    simp [hkey]
  · rw [if_neg hkey]
    cases m.entries.get? key with
    | none => rfl
    | some entry => simp [hkey]

theorem erase_without (m : ExpiringMap α) (keys : List String) (key : String) :
    (m.without keys).erase key = m.without (keys ++ [key]) := by
  simp only [without, erase, OrderedMap.erase, OrderedMap.filter_filter]
  congr 2
  funext other _
  simp

theorem hasExpired_without (m : ExpiringMap α) (now : Int) (keys : List String) (key : String) :
    (m.without keys).hasExpired now key = (decide (key ∉ keys) && m.hasExpired now key) := by
  rw [hasExpired, get?_without]
  by_cases hkey : key ∈ keys
  · simp [hkey]
  · simp only [hkey, if_false, not_false_eq_true, decide_true, Bool.true_and]
    rfl

/-- Without expired entries a map shows the same as with them. -/
theorem live?_without (hkeys : ∀ key ∈ keys, m.hasExpired now key = true) (key : String) :
    (m.without keys).live? now key = m.live? now key := by
  rw [live?, live?, hasExpired_without, peek?, peek?, get?_without]
  by_cases hkey : key ∈ keys
  · simp [hkey, hkeys key hkey]
  · simp [hkey]

end ExpiringMap

def NameSet.without (set : NameSet) (names : List String) : NameSet :=
  ⟨set.names.filter (· ∉ names), set.nodup.sublist List.filter_sublist⟩

theorem NameSet.without_nil (set : NameSet) : set.without [] = set := by
  have hnames : set.names.filter (· ∉ []) = set.names :=
    List.filter_eq_self.2 fun _ _ => decide_eq_true List.not_mem_nil
  simp only [without, hnames]

theorem NameSet.erase_without (set : NameSet) (names : List String) (name : String) :
    (set.without names).erase name = set.without (names ++ [name]) := by
  simp only [without, erase, List.filter_filter]
  congr 2
  funext other
  simp [and_comm]

/-- The entry of a file without some factories and traits; when the file was modified stays. -/
def FileEntry.without (names keys : List String) (entry : FileEntry) : FileEntry :=
  { entry with factories := entry.factories.without names, traits := entry.traits.without keys }

namespace Store

variable {store after : Store} {clock : Clock} {names keys : List String}

/-- The store without some factories and traits, which no file notes any more either. -/
def without (store : Store) (names keys : List String) : Store :=
  { store with
      factories := store.factories.without names
      traits := store.traits.without keys
      files := store.files.mapValues (FileEntry.without names keys) }

theorem without_nil (store : Store) : store.without [] [] = store := by
  have hentry : FileEntry.without [] [] = id := by
    funext entry
    simp only [FileEntry.without, NameSet.without_nil, id_eq]
  simp only [without, ExpiringMap.without_nil, hentry, OrderedMap.mapValues, id_eq, List.map_id']

theorem touchFactory_without (store : Store) (clock : Clock) (names keys : List String) {name : String}
    (hexpired : (store.without names keys).factories.hasExpired clock.monotonic name = true) :
    (store.without names keys).touchFactory clock name = store.without (names ++ [name]) keys := by
  rw [touchFactory, if_pos hexpired]
  simp only [without, forgetFactory, ExpiringMap.erase_without, OrderedMap.mapValues_mapValues]
  simp only [FileEntry.dropFactory, FileEntry.without, NameSet.erase_without]
  rfl

theorem touchTrait_without (store : Store) (clock : Clock) (names keys : List String) {factory name : String}
    (hexpired : (store.without names keys).traits.hasExpired clock.monotonic (traitKey factory name) = true) :
    (store.without names keys).touchTrait clock factory name =
      store.without names (keys ++ [traitKey factory name]) := by
  simp only [touchTrait, if_pos hexpired]
  simp only [without, forgetTrait, ExpiringMap.erase_without, OrderedMap.mapValues_mapValues]
  simp only [FileEntry.dropTrait, FileEntry.without, NameSet.erase_without]
  rfl

/-! ### Looking up one after the other -/

/-- A store is another one without some definitions, all of which had expired. -/
structure Sheds (clock : Clock) (names keys : List String) (before after : Store) : Prop where
  eq_without : after = before.without names keys
  expired_of_mem_names : ∀ name ∈ names, before.factories.hasExpired clock.monotonic name = true
  expired_of_mem_keys : ∀ key ∈ keys, before.traits.hasExpired clock.monotonic key = true

theorem Sheds.refl (clock : Clock) (store : Store) : Sheds clock [] [] store store :=
  ⟨store.without_nil.symm, fun _ hmem => absurd hmem List.not_mem_nil, fun _ hmem => absurd hmem List.not_mem_nil⟩

theorem Sheds.factory?_eq (h : Sheds clock names keys store after) (name : String) :
    after.factory? clock name = store.factory? clock name := by
  rw [h.eq_without]
  exact ExpiringMap.live?_without h.expired_of_mem_names name

theorem Sheds.trait?_eq (h : Sheds clock names keys store after) (factory name : String) :
    after.trait? clock factory name = store.trait? clock factory name := by
  rw [h.eq_without]
  exact ExpiringMap.live?_without h.expired_of_mem_keys (traitKey factory name)

theorem Sheds.target?_eq (h : Sheds clock names keys store after) (lookup : Lookup) :
    after.target? clock lookup = store.target? clock lookup := by
  cases lookup with
  | factory name => rw [target?, target?, h.factory?_eq]
  | trait factory name => rw [target?, target?, h.trait?_eq]

theorem Sheds.touch (h : Sheds clock names keys store after) (lookup : Lookup) :
    ∃ names' keys', Sheds clock names' keys' store (after.touch clock lookup) := by
  obtain ⟨rfl, hnames, hkeys⟩ := h
  cases lookup with
  | factory name =>
      cases hexpired : (store.without names keys).factories.hasExpired clock.monotonic name with
      | false =>
          have hsame : (store.without names keys).touchFactory clock name = store.without names keys := by
            rw [touchFactory, hexpired, if_neg Bool.false_ne_true]
          exact ⟨names, keys, hsame, hnames, hkeys⟩
      | true =>
          refine ⟨names ++ [name], keys, store.touchFactory_without clock names keys hexpired, ?_, hkeys⟩
          have hstore := store.factories.hasExpired_without clock.monotonic names name
          rw [show store.factories.without names = (store.without names keys).factories from rfl, hexpired] at hstore
          apply List.forall_mem_append.2 ⟨hnames, List.forall_mem_singleton.2 _⟩
          exact (Bool.and_eq_true_iff.1 hstore.symm).2
  | trait factory name =>
      cases hexpired : (store.without names keys).traits.hasExpired clock.monotonic (traitKey factory name) with
      | false =>
          have hsame : (store.without names keys).touchTrait clock factory name = store.without names keys := by
            simp only [touchTrait, hexpired, Bool.false_eq_true, if_false]
          exact ⟨names, keys, hsame, hnames, hkeys⟩
      | true =>
          refine ⟨names, keys ++ [traitKey factory name],
            store.touchTrait_without clock names keys hexpired, hnames, ?_⟩
          have hstore := store.traits.hasExpired_without clock.monotonic keys (traitKey factory name)
          rw [show store.traits.without keys = (store.without names keys).traits from rfl, hexpired] at hstore
          apply List.forall_mem_append.2 ⟨hkeys, List.forall_mem_singleton.2 _⟩
          exact (Bool.and_eq_true_iff.1 hstore.symm).2

theorem Attributed.touch (h : Attributed store) (clock : Clock) (lookup : Lookup) :
    Attributed (store.touch clock lookup) := by
  cases lookup with
  | factory name => exact h.touchFactory clock name
  | trait factory name => exact h.touchTrait clock factory name

end Store

/-! ### Texts one after the other -/

namespace Resolver

open Pattern

/-- The questions of a text under the given methods; there are none if the methods make no pattern. -/
def questionsUnder (methods : List Value) (text : List Char) : List Question :=
  match CallPattern.ofMethods methods with
  | .error _ => []
  | .ok pattern => questions pattern text

/-- Asks one question after the other, each of the store that the one before it has left: the references, and the
store in the end. -/
def askInTurn (clock : Clock) (index : Text.LineIndex) : Store → List Question → List Reference × Store
  | store, [] => ([], store)
  | store, question :: rest =>
    let (references, last) := askInTurn clock index (store.touch clock question.lookup) rest
    ((answer? store clock index question).toList ++ references, last)

/-- Resolves one text after the other: the references of each, and the store in the end. -/
def resolveInTurn (clock : Clock) (methods : List Value) : Store → List (List Char) → List (List Reference) × Store
  | store, [] => ([], store)
  | store, text :: rest =>
    let resolution := resolve store clock methods text
    let (others, last) := resolveInTurn clock methods resolution.store rest
    (resolution.references :: others, last)

variable {clock : Clock} {store after : Store} {names keys : List String}

/-- Questions that are asked in turn get the answers they would get from the first store, and leave it without some
expired definitions. -/
theorem sheds_askInTurn (index : Text.LineIndex) (hafter : store.Sheds clock names keys after)
    (questions : List Question) :
    askInTurn clock index after questions = (questions.filterMap (answer? store clock index),
        questions.foldl (fun store question => store.touch clock question.lookup) after) ∧
      ∃ names' keys', store.Sheds clock names' keys' (askInTurn clock index after questions).2 := by
  induction questions generalizing after names keys with
  | nil => exact ⟨rfl, names, keys, hafter⟩
  | cons question rest ih =>
      obtain ⟨names', keys', hnext⟩ := hafter.touch question.lookup
      obtain ⟨hrest, hlast⟩ := ih hnext
      refine ⟨?_, hlast⟩
      have hanswer : answer? after clock index question = answer? store clock index question := by
        rw [answer?, answer?, hafter.target?_eq]
      rw [askInTurn, hrest, hanswer, List.filterMap_cons]
      cases answer? store clock index question <;> rfl

theorem references_resolve (store : Store) (clock : Clock) (methods : List Value) (text : List Char) :
    (resolve store clock methods text).references =
      (questionsUnder methods text).filterMap (answer? store clock (.ofText text)) := by
  unfold resolve questionsUnder
  cases CallPattern.ofMethods methods <;> rfl

theorem store_resolve (store : Store) (clock : Clock) (methods : List Value) (text : List Char) :
    (resolve store clock methods text).store =
      (questionsUnder methods text).foldl (fun store question => store.touch clock question.lookup) store := by
  unfold resolve questionsUnder
  cases CallPattern.ofMethods methods <;> rfl

theorem askInTurn_eq_resolve (store : Store) (clock : Clock) (methods : List Value) (text : List Char) :
    askInTurn clock (.ofText text) store (questionsUnder methods text) =
      ((resolve store clock methods text).references, (resolve store clock methods text).store) := by
  rw [(sheds_askInTurn (.ofText text) (Store.Sheds.refl clock store) (questionsUnder methods text)).1,
    references_resolve, store_resolve]

theorem sheds_resolve (hafter : store.Sheds clock names keys after) (methods : List Value) (text : List Char) :
    (resolve after clock methods text).references = (resolve store clock methods text).references ∧
      ∃ names' keys', store.Sheds clock names' keys' (resolve after clock methods text).store := by
  obtain ⟨hasked, hsheds⟩ := sheds_askInTurn (.ofText text) hafter (questionsUnder methods text)
  rw [askInTurn_eq_resolve] at hasked hsheds
  rw [references_resolve store]
  exact ⟨congrArg Prod.fst hasked, hsheds⟩

theorem sheds_resolveInTurn (hafter : store.Sheds clock names keys after) (methods : List Value)
    (texts : List (List Char)) :
    (resolveInTurn clock methods after texts).1 =
        texts.map (fun text => (resolve store clock methods text).references) ∧
      ∃ names' keys', store.Sheds clock names' keys' (resolveInTurn clock methods after texts).2 := by
  induction texts generalizing after names keys with
  | nil => exact ⟨rfl, names, keys, hafter⟩
  | cons text rest ih =>
      obtain ⟨hreferences, names', keys', hnext⟩ := sheds_resolve hafter methods text
      obtain ⟨hothers, hlast⟩ := ih hnext
      refine ⟨?_, hlast⟩
      rw [List.map_cons, ← hreferences, ← hothers]
      rfl

theorem attributed_resolve (h : after.Attributed) (clock : Clock) (methods : List Value) (text : List Char) :
    (resolve after clock methods text).store.Attributed := by
  rw [store_resolve]
  induction questionsUnder methods text generalizing after with
  | nil => exact h
  | cons question rest ih => exact ih (h.touch clock question.lookup)

theorem attributed_resolveInTurn (h : after.Attributed) (clock : Clock) (methods : List Value)
    (texts : List (List Char)) : (resolveInTurn clock methods after texts).2.Attributed := by
  induction texts generalizing after with
  | nil => exact h
  | cons text rest ih => exact ih (attributed_resolve h clock methods text)

end Resolver

/-- **Resolving only sheds what has expired.** Resolve any texts at one reading of the clock, in any order and any
number of times each. Each text has the references it would have on its own. In the end the store is the first one
without some factories and traits, all of which had expired, and without the notes of them; what is left is still noted
exactly for the files it comes from. Every look-up shows what it would have shown before. All this is so although every
symbol is looked up in the store that the one before it has left. -/
theorem resolving_sheds_expired {store : Store} (hstore : store.Reachable) (clock : Clock) (methods : List Value)
    (texts : List (List Char)) :
    let (references, after) := Resolver.resolveInTurn clock methods store texts
    references = texts.map (fun text => (resolve store clock methods text).references) ∧
      (∃ names keys, after = store.without names keys ∧
        (∀ name ∈ names, store.factories.hasExpired clock.monotonic name = true) ∧
        (∀ key ∈ keys, store.traits.hasExpired clock.monotonic key = true)) ∧
      after.Attributed ∧
      (∀ name, after.factory? clock name = store.factory? clock name) ∧
      (∀ factory name, after.trait? clock factory name = store.trait? clock factory name) ∧
      ∀ text, Resolver.askInTurn clock (.ofText text) store (Resolver.questionsUnder methods text) =
        ((resolve store clock methods text).references, (resolve store clock methods text).store) := by
  obtain ⟨hreferences, names, keys, hsheds⟩ :=
    Resolver.sheds_resolveInTurn (Store.Sheds.refl clock store) methods texts
  exact ⟨hreferences, ⟨names, keys, hsheds.eq_without, hsheds.expired_of_mem_names, hsheds.expired_of_mem_keys⟩,
    Resolver.attributed_resolveInTurn (.of_reachable hstore) clock methods texts, hsheds.factory?_eq, hsheds.trait?_eq,
    Resolver.askInTurn_eq_resolve store clock methods⟩

/-- Of two factories one has expired. A text that names it, resolved twice around a text that names the other one,
has no references either time, and takes the expired factory with it, from the map and from the notes. -/
theorem resolving_sheds_expired_twice :
    let clock (time : Int) : Clock := ⟨reading time, reading time⟩
    let factory (name : String) : Factory := { name := name, location := { file := "a.rb", line := 0 } }
    let store := (((Store.empty 60000).perform (clock 0) (.upsertFactory (factory "u"))).1.perform (clock 50000)
      (.upsertFactory (factory "p"))).1
    let texts := ["create(:u)".toList, "create(:p)".toList, "create(:u)".toList]
    let after := (Resolver.resolveInTurn (clock 70000) [.text "create"] store texts).2
    (Resolver.resolveInTurn (clock 70000) [.text "create"] store texts).1 =
        texts.map (fun text => (resolve store (clock 70000) [.text "create"] text).references) ∧
      texts.map (fun text => (resolve store (clock 70000) [.text "create"] text).references.length) = [0, 1, 0] ∧
      after.factories.entries.keys = ["p"] ∧ (after.files.get? "a.rb").map (·.factories.names) = some ["p"] ∧
      after.Attributed := by
  intro clock factory store texts after
  let early : Moment := ⟨clock 0, by decide +kernel, by decide +kernel⟩
  let late : Moment := ⟨clock 50000, by decide +kernel, by decide +kernel⟩
  have hcreate : Store.create (.int 60000) = .ok (Store.empty 60000) := by rfl
  have hstore : store.Reachable := .step late _ (.step early _ (.start hcreate))
  obtain ⟨hreferences, -, hattributed, -⟩ :=
    resolving_sheds_expired hstore (clock 70000) [.text "create"] texts
  refine ⟨hreferences, ?_, ?_, ?_, hattributed⟩
  · decide +kernel
  · decide +kernel
  · decide +kernel

end FactoryIndex
