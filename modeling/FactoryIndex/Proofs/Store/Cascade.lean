import FactoryIndex.Proofs.Outline.Linking
import FactoryIndex.Proofs.Store.Exchange

/-!
# Removing a factory and its traits

A factory goes away together with all traits that belong to it, in whatever files these lie. The files are visited
one definition at a time, and each time only the file that the definition comes from loses its key. As no other file
notes that key, it may as well be taken from all of them, so that the whole is the store without one name and some keys.

Which traits belong to a factory is told by the traits themselves, while a look-up goes by their keys. The two agree as
long as no name contains a colon: then the only colon of a key is the one that was put between two names.
-/

namespace FactoryIndex

/-! ### Keys -/

/-- A key is read in one way only if it was made from names without colons. -/
theorem traitKey_inj_of_not_mem {a b m n : String} (hb : ':' ∉ b.toList) (hn : ':' ∉ n.toList)
    (heq : traitKey a m = traitKey b n) : a = b ∧ m = n := by
  have hchars : a.toList ++ ':' :: m.toList = b.toList ++ ':' :: n.toList := by
    simpa [traitKey] using congrArg String.toList heq
  have hsame : a.toList = b.toList ∧ m.toList = n.toList := by
    rcases List.append_eq_append_iff.1 hchars with ⟨rest, hfactory, hname⟩ | ⟨rest, hfactory, hname⟩
    · cases rest with
      | nil => exact ⟨by simpa using hfactory.symm, (List.cons.inj hname).2⟩
      | cons c rest =>
          obtain ⟨rfl, -⟩ := List.cons.inj hname
          exact absurd (hfactory ▸ List.mem_append_right _ List.mem_cons_self) hb
    · cases rest with
      | nil => exact ⟨by simpa using hfactory, (List.cons.inj hname).2.symm⟩
      | cons c rest =>
          obtain ⟨-, hrest⟩ := List.cons.inj hname
          exact absurd (hrest ▸ List.mem_append_right _ List.mem_cons_self) hn
  exact ⟨String.toList_inj.1 hsame.1, String.toList_inj.1 hsame.2⟩

open Pattern in
theorem Pattern.named_of_traitHeader? {before : Option Char} {text : List Char} {hit : Hit Symbol}
    (h : traitHeader? before text = some hit) : hit.parts.Named := by
  unfold traitHeader? at h
  split at h
  · next hname =>
    simp only at h
    split at h
    · split at h
      · cases h
      · cases h
        obtain ⟨-, -, -, -, -, -, hnamed⟩ := keywordSymbol?_eq_some hname
        exact hnamed
    · cases h
  · cases h

namespace Outline

open Pattern Text

theorem isNameChar_of_mem_traitHeaders {text : List Char} {found : Found Symbol} (hmem : found ∈ traitHeaders text) :
    ∀ c ∈ found.parts.name, isNameChar c = true := by
  obtain ⟨left, right, -, -, -, hsome⟩ := occurs_of_mem_occurrences hmem
  exact (named_of_traitHeader? hsome).2

theorem isNameChar_of_mem_names {mode : BlockMode} {text : List Char} {file : RawText} {t : Trait}
    (hmem : t ∈ (parse mode text file).traits) : ∀ c ∈ t.name.toList, isNameChar c = true := by
  cases mode with
  | scanner =>
      obtain ⟨finding, hfinding, heq⟩ := List.mem_filterMap.1 hmem
      obtain ⟨past, event, future, hevents, hsome⟩ := exists_of_mem_findings hfinding
      have hevent : event ∈ blockEvents (mask text) := hevents ▸ List.mem_append_right _ List.mem_cons_self
      rcases finding?_eq_some hsome with ⟨_, _, _, -, rfl, -⟩ | ⟨_, _, _, _, rfl, rfl, -⟩
      · cases heq
      · cases heq
        rcases mem_blockEvents.1 hevent with ⟨found, -, heq⟩ | ⟨found, hfound, heq⟩ | ⟨found, -, heq⟩
        · cases heq
        · cases heq
          rw [String.toList_ofList]
          exact isNameChar_of_mem_traitHeaders hfound
        · cases heq
  | regex =>
      obtain ⟨body, -, htrait⟩ := List.mem_flatMap.1 hmem
      obtain ⟨found, hfound, rfl⟩ := List.mem_map.1 htrait
      rw [String.toList_ofList]
      exact isNameChar_of_mem_traitHeaders hfound

theorem colonless_parse (mode : BlockMode) (text : List Char) (file : RawText) :
    (∀ factory ∈ (parse mode text file).factories, ':' ∉ factory.name.toList) ∧
      ∀ t ∈ (parse mode text file).traits, ':' ∉ t.name.toList ∧ ':' ∉ t.factory.toList := by
  have hcolon {chars : List Char} (hchars : ∀ c ∈ chars, isNameChar c = true) : ':' ∉ chars := fun hmem =>
    absurd (hchars ':' hmem) (by decide)
  refine ⟨fun factory hmem => hcolon ?_, fun t hmem => ⟨hcolon ?_, hcolon ?_⟩⟩
  · exact isNameChar_of_mem_factoryNames (map_name_parse mode text file ▸ List.mem_map_of_mem hmem)
  · exact isNameChar_of_mem_names hmem
  · exact isNameChar_of_mem_traits hmem

end Outline

/-! ### Taking out one definition after the other -/

namespace OrderedMap

variable {κ α : Type} [DecidableEq κ]

/-- To change one value is to change all of them if the others stay as they are. -/
theorem put_eq_map {change : α → α} {key : κ} {value : α} {entries : List (κ × α)}
    (hnodup : (entries.map Prod.fst).Nodup) (hmem : (key, value) ∈ entries)
    (hothers : ∀ entry ∈ entries, entry.1 ≠ key → change entry.2 = entry.2) :
    put key (change value) entries = entries.map fun entry => (entry.1, change entry.2) := by
  induction entries with
  | nil => cases hmem
  | cons entry rest ih =>
      obtain ⟨k, v⟩ := entry
      rw [List.map_cons, List.nodup_cons] at hnodup
      have hrest : ∀ entry ∈ rest, entry.1 ≠ key → change entry.2 = entry.2 := fun entry hentry =>
        hothers entry (List.mem_cons_of_mem _ hentry)
      by_cases hkey : k = key
      · subst hkey
        have hsame : ∀ entry ∈ rest, (entry.1, change entry.2) = entry := by
          intro entry hentry
          rw [hrest entry hentry fun heq => hnodup.1 (List.mem_map.2 ⟨entry, hentry, heq⟩)]
        have hvalue : value = v := by
          rcases List.mem_cons.1 hmem with heq | hmem
          · exact (Prod.mk.inj heq).2
          · exact absurd (List.mem_map.2 ⟨(k, value), hmem, rfl⟩) hnodup.1
        rw [put, if_pos rfl, List.map_cons, List.map_congr_left hsame, List.map_id', hvalue]
      · have hlater : (key, value) ∈ rest :=
          (List.mem_cons.1 hmem).resolve_left fun heq => hkey (Prod.mk.inj heq).1.symm
        rw [put, if_neg hkey, List.map_cons, hothers (k, v) List.mem_cons_self hkey, ih hnodup.2 hlater hrest]

theorem insert_eq_mapValues {m : OrderedMap κ α} {change : α → α} {key : κ} {value : α} (hget : m.get? key = some value)
    (hothers : ∀ other ≠ key, ∀ entry, m.get? other = some entry → change entry = entry) :
    m.insert key (change value) = m.mapValues change := by
  have hentries : put key (change value) m.entries = m.entries.map fun entry => (entry.1, change entry.2) :=
    put_eq_map m.nodup ((m.get?_eq_some_iff key value).1 hget) fun entry hentry hne =>
      hothers entry.1 hne entry.2 ((m.get?_eq_some_iff entry.1 entry.2).2 hentry)
  simp only [insert, mapValues, hentries]

theorem mapValues_eq_self {m : OrderedMap κ α} {change : α → α}
    (hall : ∀ key entry, m.get? key = some entry → change entry = entry) : m.mapValues change = m := by
  have hsame : ∀ entry ∈ m.entries, (entry.1, change entry.2) = entry := by
    intro entry hentry
    rw [hall entry.1 entry.2 ((m.get?_eq_some_iff entry.1 entry.2).2 hentry)]
  simp only [mapValues, List.map_congr_left hsame, List.map_id']

end OrderedMap

theorem ExpiringMap.without_of_peek?_eq_none {α : Type} {m : ExpiringMap α} {keys : List String}
    (hkeys : ∀ key ∈ keys, m.peek? key = none) : m.without keys = m := by
  have hentries : m.entries.entries.filter (fun entry => decide (entry.1 ∉ keys)) = m.entries.entries := by
    refine List.filter_eq_self.2 fun entry hentry => decide_eq_true fun hkey => ?_
    have hnone := hkeys entry.1 hkey
    rw [peek?, (m.entries.get?_eq_some_iff entry.1 entry.2).2 hentry] at hnone
    cases hnone
  simp only [without, OrderedMap.filter, hentries]

namespace Store

variable {store : Store} {key : String} {t : Trait}

theorem without_without (store : Store) (names names' keys keys' : List String) :
    (store.without names keys).without names' keys' = store.without (names ++ names') (keys ++ keys') := by
  have hmap {α : Type} (m : ExpiringMap α) (a b : List String) : (m.without a).without b = m.without (a ++ b) := by
    rw [← m.foldl_erase (a ++ b), List.foldl_append, ExpiringMap.foldl_erase, ExpiringMap.foldl_erase]
  simp only [without, hmap, OrderedMap.mapValues_mapValues, FileEntry.without_without]

/-- To change the entry of one file is to change all of them if the others stay as they are. -/
theorem updateFile_eq {file : RawText} {change : FileEntry → FileEntry}
    (hothers : ∀ other ≠ file, ∀ entry, store.files.get? other = some entry → change entry = entry) :
    store.updateFile file change = { store with files := store.files.mapValues change } := by
  unfold updateFile
  cases hentry : store.files.get? file with
  | some entry => simp only [OrderedMap.insert_eq_mapValues hentry hothers]
  | none =>
      have hsame : store.files.mapValues change = store.files := by
        refine OrderedMap.mapValues_eq_self fun other entry hother => hothers other ?_ entry hother
        rintro rfl
        rw [hentry] at hother
        cases hother
      rw [hsame]

theorem removeFactoryAlone_eq_without (h : Attributed store) (name : String) :
    store.removeFactoryAlone name = store.without [name] [] := by
  have hdrop {file : RawText} (hnot : ¬ Kind.factory.Noted store file name) (entry : FileEntry)
      (hentry : store.files.get? file = some entry) : entry.without [name] [] = entry :=
    FileEntry.without_of_not_mem (List.forall_mem_singleton.2 fun hmem => hnot ⟨entry, hentry, hmem⟩)
      (List.forall_mem_nil _)
  unfold removeFactoryAlone
  split
  · next factory hfactory =>
    have hnoted := h.factories.noted_iff_of_stored hfactory
    rw [FileEntry.dropFactory_eq_without, updateFile_eq]
    · simp only [without, ← ExpiringMap.foldl_erase, List.foldl_cons, List.foldl_nil]
    · exact fun other hother => hdrop (mt (hnoted other).1 hother)
  · next hnone =>
    have hfiles : store.files.mapValues (FileEntry.without [name] []) = store.files :=
      OrderedMap.mapValues_eq_self fun file => hdrop (h.factories.not_noted_of_stored_eq_none hnone file)
    rw [without, hfiles, ExpiringMap.without_nil,
      ExpiringMap.without_of_peek?_eq_none (List.forall_mem_singleton.2 hnone)]

theorem removeTrait_eq_without (h : Attributed store)
    (hstored : ∀ found, store.traits.peek? key = some found → found = t) :
    store.removeTrait key t = store.without [] [key] := by
  have hothers (other : RawText) (hother : other ≠ t.location.file) (entry : FileEntry)
      (hentry : store.files.get? other = some entry) : entry.without [] [key] = entry := by
    refine FileEntry.without_of_not_mem (List.forall_mem_nil _) (List.forall_mem_singleton.2 fun hmem => hother ?_)
    obtain ⟨found, hfound, hfile⟩ := (h.traits.noted_iff other key).1 ⟨entry, hentry, hmem⟩
    rw [← hfile, hstored found hfound]
    rfl
  rw [removeTrait, FileEntry.dropTrait_eq_without, updateFile_eq]
  · simp only [without, ← ExpiringMap.foldl_erase, List.foldl_cons, List.foldl_nil]
  · exact hothers

theorem Attributed.removeTrait (h : Attributed store)
    (hstored : ∀ found, store.traits.peek? key = some found → found = t) : Attributed (store.removeTrait key t) :=
  ⟨h.factories.keeps (keeps_removeTrait store key t), h.traits.drops (drops_removeTrait h.traits hstored)⟩

theorem foldl_removeTrait_eq_without (h : Attributed store) (items : List (String × Trait))
    (hitems : ∀ item ∈ items, ∀ found, store.traits.peek? item.1 = some found → found = item.2) :
    items.foldl (fun store item => store.removeTrait item.1 item.2) store = store.without [] (items.map Prod.fst) := by
  induction items generalizing store with
  | nil => exact store.without_nil.symm
  | cons item rest ih =>
      have hfirst := hitems item List.mem_cons_self
      have hremoved := h.removeTrait hfirst
      rw [removeTrait_eq_without h hfirst] at hremoved
      rw [List.foldl_cons, removeTrait_eq_without h hfirst, ih hremoved fun other hother found hfound => ?_,
        without_without]
      · rfl
      · rw [without, ExpiringMap.peek?, ExpiringMap.get?_without] at hfound
        split at hfound
        · cases hfound
        · exact hitems other (List.mem_cons_of_mem _ hother) found hfound

def keysOf (store : Store) (factory : String) : List String :=
  (store.traits.items.filter fun item => item.2.factory == factory).map Prod.fst

theorem removeFactory_eq_without (h : Attributed store) (name : String) :
    store.removeFactory name = store.without [name] (store.keysOf name) := by
  have halone := removeFactoryAlone_eq_without h name
  have hremoved : Attributed (store.without [name] []) :=
    halone ▸ ⟨h.factories.drops (drops_removeFactoryAlone h.factories name),
      h.traits.keeps (keeps_removeFactoryAlone store name)⟩
  have htraits : (store.without [name] []).traits = store.traits := ExpiringMap.without_nil store.traits
  rw [removeFactory, halone, htraits]
  rw [foldl_removeTrait_eq_without hremoved _ fun item hitem found hfound => ?_, without_without]
  · rfl
  · rw [htraits] at hfound
    have hmem := (ExpiringMap.mem_items _ _ _).1 (List.mem_filter.1 hitem).1
    exact Option.some.inj (hfound.symm.trans hmem)

theorem mem_keysOf {factory : String} :
    key ∈ store.keysOf factory ↔ ∃ t, store.traits.peek? key = some t ∧ t.factory = factory := by
  rw [keysOf, List.mem_map, exists_mem_filter_items (p := fun t : Trait => t.factory == factory)]
  simp only [beq_iff_eq]

def Colonless (store : Store) : Prop :=
  ∀ key t, store.traits.peek? key = some t → ':' ∉ t.name.toList ∧ ':' ∉ t.factory.toList

theorem stored_of_trait? {clock : Clock} {factory name : String} (hfound : store.trait? clock factory name = some t) :
    store.traits.peek? (traitKey factory name) = some t := by
  unfold trait? ExpiringMap.live? at hfound
  split at hfound
  · cases hfound
  · exact hfound

/-- What a look-up shows is what it asks for. -/
theorem belongs_of_trait? (h : Attributed store) (hcolon : store.Colonless) {clock : Clock} {factory name : String}
    (hfound : store.trait? clock factory name = some t) : t.factory = factory ∧ t.name = name := by
  have hstored := stored_of_trait? hfound
  have hkey : t.key = traitKey factory name := h.traits.keyOf_stored _ t hstored
  obtain ⟨hname, hfactory⟩ := hcolon _ t hstored
  obtain ⟨rfl, rfl⟩ := traitKey_inj_of_not_mem hfactory hname hkey.symm
  exact ⟨rfl, rfl⟩

section Removed

variable {name : String} (h : Attributed store)

include h

theorem peek?_removeFactory (hstored : (store.removeFactory name).traits.peek? key = some t) :
    store.traits.peek? key = some t ∧ t.factory ≠ name := by
  rw [removeFactory_eq_without h, without, ExpiringMap.peek?, ExpiringMap.get?_without] at hstored
  split at hstored
  · cases hstored
  · next hkey => exact ⟨hstored, fun hfactory => hkey (mem_keysOf.2 ⟨t, hstored, hfactory⟩)⟩

theorem factory?_removeFactory (clock : Clock) (name : String) :
    (store.removeFactory name).factory? clock name = none := by
  have hnone : (store.removeFactory name).factories.peek? name = none := by
    rw [removeFactory_eq_without h, without, ExpiringMap.peek?, ExpiringMap.get?_without,
      if_pos (List.mem_singleton.2 rfl), Option.map_none]
  unfold factory? ExpiringMap.live?
  rw [hnone, ite_self]

theorem trait?_removeFactory (hcolon : store.Colonless) (clock : Clock) (name other : String) :
    (store.removeFactory name).trait? clock name other = none := by
  have hcolon' : (store.removeFactory name).Colonless := fun key t hstored =>
    hcolon key t (peek?_removeFactory h hstored).1
  rw [Option.eq_none_iff_forall_ne_some]
  intro t hfound
  obtain ⟨hfactory, -⟩ := belongs_of_trait? (h.removeFactory name) hcolon' hfound
  exact (peek?_removeFactory h (stored_of_trait? hfound)).2 hfactory

theorem entries_traits_removeFactory (name : String) :
    (store.removeFactory name).traits.entries =
      store.traits.entries.filter fun _ entry => decide (entry.value.factory ≠ name) := by
  have hentries : store.traits.entries.entries.filter (fun entry => decide (entry.1 ∉ store.keysOf name)) =
      store.traits.entries.entries.filter fun entry => decide (entry.2.value.factory ≠ name) := by
    refine List.filter_congr fun entry hentry => decide_eq_decide.2 (not_congr ?_)
    have hstored : store.traits.peek? entry.1 = some entry.2.value := by
      rw [ExpiringMap.peek?, (store.traits.entries.get?_eq_some_iff entry.1 entry.2).2 hentry, Option.map_some]
    rw [mem_keysOf, hstored]
    simp
  rw [removeFactory_eq_without h]
  simp only [without, ExpiringMap.without, OrderedMap.filter, hentries]

end Removed

/-- **To remove a factory removes its traits and nothing else.** Take any state of a store in which no name of a trait
and of the factory it belongs to contains a colon; no name that a text defines does. Then a look-up of a trait never
shows one of another factory or of another name. Once a factory is removed, no look-up shows it or one of its traits,
at whatever time, and no trait of it is stored, expired or not. What is left is the store without its name and the keys
of its traits: all other definitions keep their values, their times and their order, and every file is noted for what
it was noted for without that name and these keys, whichever files the traits lie in. -/
theorem removeFactory_cascades (hstore : store.Reachable) (hcolon : store.Colonless) (name : String) :
    let after := store.removeFactory name
    (∀ clock factory other t, store.trait? clock factory other = some t → t.factory = factory ∧ t.name = other) ∧
      (∀ clock, after.factory? clock name = none ∧ ∀ other, after.trait? clock name other = none) ∧
      (∀ item ∈ after.traits.items, item.2.factory ≠ name) ∧
      after.factories.entries = store.factories.entries.filter (fun key _ => decide (key ≠ name)) ∧
      after.traits.entries = store.traits.entries.filter (fun _ entry => decide (entry.value.factory ≠ name)) ∧
      after.files = store.files.mapValues (FileEntry.without [name] (store.keysOf name)) ∧
      (∀ key, key ∈ store.keysOf name ↔ ∃ t, store.traits.peek? key = some t ∧ t.factory = name) ∧
      ∀ mode text file, (∀ factory ∈ (Outline.parse mode text file).factories, ':' ∉ factory.name.toList) ∧
        ∀ t ∈ (Outline.parse mode text file).traits, ':' ∉ t.name.toList ∧ ':' ∉ t.factory.toList := by
  intro after
  have h := Attributed.of_reachable hstore
  have hafter : after = store.without [name] (store.keysOf name) := removeFactory_eq_without h name
  refine ⟨fun clock factory other t hfound => belongs_of_trait? h hcolon hfound,
    fun clock => ⟨factory?_removeFactory h clock name, trait?_removeFactory h hcolon clock name⟩, fun item hitem => ?_,
    ?_, entries_traits_removeFactory h name, by rw [hafter, without], fun key => mem_keysOf, Outline.colonless_parse⟩
  · exact (peek?_removeFactory h ((ExpiringMap.mem_items _ _ _).1 hitem)).2
  · rw [hafter]
    simp only [without, ExpiringMap.without, List.mem_singleton]

/-- A factory whose traits lie in two files, one of them expired, next to a trait of a factory of a longer name. -/
theorem removeFactory_cascades_across :
    let clock (time : Int) : Clock := ⟨reading time, reading time⟩
    let factory (name : String) : Factory := { name, location := { file := "a.rb", line := 0 } }
    let named (name factory : String) (file : RawText) : Trait := { name, location := { file, line := 1 }, factory }
    let store := (((((empty 1000).perform (clock 0) (.upsertTrait (named "old" "user" "b.rb"))).1.perform (clock 5000)
      (.upsertFactory (factory "user"))).1.perform (clock 5000) (.upsertTrait (named "new" "user" "a.rb"))).1.perform
      (clock 5000) (.upsertTrait (named "new" "users" "b.rb"))).1
    let keysIn (store : Store) (file : RawText) := (store.files.get? file).map fun entry => entry.traits.names
    let after := store.removeFactory "user"
    keysIn store "a.rb" = some ["user:new"] ∧ keysIn store "b.rb" = some ["users:new", "user:old"] ∧
      (store.trait? (clock 5000) "user" "new").isSome = true ∧ after.trait? (clock 5000) "user" "new" = none ∧
      (∀ item ∈ after.traits.items, item.2.factory ≠ "user") ∧
      keysIn after "a.rb" = some [] ∧ keysIn after "b.rb" = some ["users:new"] := by
  intro clock factory named store keysIn after
  let early : Moment := ⟨clock 0, by decide +kernel, by decide +kernel⟩
  let late : Moment := ⟨clock 5000, by decide +kernel, by decide +kernel⟩
  have hcreate : create (.int 1000) = .ok (empty 1000) := by rfl
  have hnew : Reachable (empty 1000) := .start hcreate
  have hstore : Reachable store := .step late _ (.step late _ (.step late _ (.step early _ hnew)))
  have hcolon : store.Colonless := by
    have hitems : store.traits.items = [("user:old", named "old" "user" "b.rb"),
        ("user:new", named "new" "user" "a.rb"), ("users:new", named "new" "users" "b.rb")] := by decide +kernel
    intro key t hstored
    rw [← ExpiringMap.mem_items, hitems] at hstored
    simp only [List.mem_cons, List.not_mem_nil, or_false, Prod.mk.injEq] at hstored
    obtain ⟨-, rfl⟩ | ⟨-, rfl⟩ | ⟨-, rfl⟩ := hstored
    · decide +kernel
    · decide +kernel
    · decide +kernel
  obtain ⟨-, hnone, hgone, -, -, hfiles, -⟩ := removeFactory_cascades hstore hcolon "user"
  refine ⟨by decide +kernel, by decide +kernel, by decide +kernel, (hnone (clock 5000)).2 "new", hgone, ?_, ?_⟩
  · simp only [keysIn, after, hfiles]
    decide +kernel
  · simp only [keysIn, after, hfiles]
    decide +kernel

end Store

end FactoryIndex
