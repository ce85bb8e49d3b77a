import FactoryIndex.Proofs.Resolver.Eviction
import FactoryIndex.Proofs.Store.Lifetime
import FactoryIndex.Proofs.Store.Refinement
import Mathlib.Data.List.Sort
import Mathlib.Data.String.Basic

/-!
# What is left when a file has other contents

To replace what comes from a file is to remove the file, to write definitions one after the other, and to stamp the
file. Each definition may take its key from another file, and a key may be written more than once. `Kind.exchange` is
what all of that does to a map: what came from the file goes away, and then the definitions are written at one time.
The last one of each key stays, and the entries of other files keep their values, their times and their order as long
as nothing takes over their keys.

What the other files are noted for follows from the attribution of the store: a key that a definition takes was noted
for the file of its predecessor only, so it may as well be taken from every other file.
-/

namespace FactoryIndex

/-! ### Maps -/

namespace OrderedMap

variable {κ α : Type} [DecidableEq κ]

theorem filter_put {p : κ × α → Bool} {key : κ} {value : α} (hvalue : p (key, value) = false)
    {entries : List (κ × α)} (hnodup : (entries.map Prod.fst).Nodup) :
    (put key value entries).filter p = (entries.filter fun entry => entry.1 ≠ key).filter p := by
  induction entries with
  | nil => simp [put, hvalue]
  | cons entry rest ih =>
      obtain ⟨k, v⟩ := entry
      rw [List.map_cons, List.nodup_cons] at hnodup
      by_cases hkey : k = key
      · subst hkey
        have hrest : rest.filter (fun entry => entry.1 ≠ k) = rest := by
          refine List.filter_eq_self.2 fun entry hentry => decide_eq_true fun heq => hnodup.1 ?_
          exact List.mem_map.2 ⟨entry, hentry, heq⟩
        rw [put, if_pos rfl, List.filter_cons_of_neg (by simp [hvalue]), List.filter_cons_of_neg (by simp), hrest]
      · have hkept : ((k, v) :: rest).filter (fun entry => entry.1 ≠ key) =
            (k, v) :: rest.filter fun entry => entry.1 ≠ key := List.filter_cons_of_pos (decide_eq_true hkey)
        rw [put, if_neg hkey, hkept, List.filter_cons, List.filter_cons, ih hnodup.2]

theorem filter_insert {p : κ → α → Bool} {key : κ} {value : α} (hvalue : p key value = false) (m : OrderedMap κ α) :
    (m.insert key value).filter p = (m.erase key).filter p := by
  simp only [insert, erase, filter, filter_put (p := fun entry => p entry.1 entry.2) hvalue m.nodup]

omit [DecidableEq κ] in
theorem filter_comm (p q : κ → α → Bool) (m : OrderedMap κ α) : (m.filter p).filter q = (m.filter q).filter p := by
  simp only [filter_filter, Bool.and_comm]

end OrderedMap

namespace ExpiringMap

variable {α : Type} {keyOf : α → String} {m : ExpiringMap α} {now later : Int} {values : List α} {key : String}

theorem foldl_erase (m : ExpiringMap α) (keys : List String) : keys.foldl erase m = m.without keys := by
  have hmore (gone : List String) : keys.foldl erase (m.without gone) = m.without (gone ++ keys) := by
    induction keys generalizing gone with
    | nil => rw [List.foldl_nil, List.append_nil]
    | cons key rest ih => rw [List.foldl_cons, erase_without, ih, List.append_assoc, List.singleton_append]
  have hall := hmore []
  rwa [without_nil, List.nil_append] at hall

def putAll (m : ExpiringMap α) (now : Int) (keyOf : α → String) (values : List α) : ExpiringMap α :=
  values.foldl (fun m value => m.put now (keyOf value) value) m

theorem lifetime_putAll (m : ExpiringMap α) (now : Int) (keyOf : α → String) (values : List α) :
    (m.putAll now keyOf values).lifetime = m.lifetime := by
  apply OrderedMap.view_foldl ExpiringMap.lifetime
  exact fun _ _ => rfl

theorem get?_putAll (m : ExpiringMap α) (now : Int) (keyOf : α → String) (values : List α) (key : String) :
    (m.putAll now keyOf values).entries.get? key =
      ((values.findRev? fun value => keyOf value = key).map fun value => ⟨value, now⟩).or (m.entries.get? key) := by
  refine OrderedMap.lookup_foldl (fun m : ExpiringMap α => m.entries.get? key) (fun m value => ?_) values m
  simp only [put, OrderedMap.get?_insert, decide_eq_true_eq, @eq_comm _ key]

theorem filter_putAll {p : String → Entry α → Bool} (hvalues : ∀ value ∈ values, p (keyOf value) ⟨value, now⟩ = false)
    (m : ExpiringMap α) :
    (m.putAll now keyOf values).entries.filter p = (m.without (values.map keyOf)).entries.filter p := by
  induction values generalizing m with
  | nil => rw [List.map_nil, without_nil, putAll, List.foldl_nil]
  | cons value rest ih =>
      have hothers : ∀ other ∈ rest, p (keyOf other) ⟨other, now⟩ = false :=
        fun other hother => hvalues other (List.mem_cons_of_mem _ hother)
      have hrest := ih hothers (m.put now (keyOf value) value)
      have hfirst := OrderedMap.filter_insert (hvalues value List.mem_cons_self) m.entries
      -- The other keys are left out on both sides, and may as well be left out last.
      have hput : ((m.put now (keyOf value) value).without (rest.map keyOf)).entries.filter p =
          ((m.erase (keyOf value)).without (rest.map keyOf)).entries.filter p := by
        simp only [without, put, erase]
        rw [OrderedMap.filter_comm, hfirst, OrderedMap.filter_comm]
      have hgone : (m.erase (keyOf value)).without (rest.map keyOf) = m.without ((value :: rest).map keyOf) := by
        simp only [without, erase, OrderedMap.erase, OrderedMap.filter_filter]
        congr 2
        funext other _
        simp
      exact hrest.trans (hgone ▸ hput)

end ExpiringMap

/-! ### Entries of files -/

namespace NameSet

theorem without_without (set : NameSet) (names others : List String) :
    (set.without names).without others = set.without (names ++ others) := by
  simp only [without, List.filter_filter]
  congr 2
  funext name
  simp [Bool.and_comm]

theorem without_of_not_mem {set : NameSet} {names : List String} (h : ∀ name ∈ names, name ∉ set) :
    set.without names = set := by
  have hnames : set.names.filter (· ∉ names) = set.names :=
    List.filter_eq_self.2 fun name hname => decide_eq_true fun hmem => h name hmem hname
  simp only [without, hnames]

theorem erase_eq_without (set : NameSet) (name : String) : set.erase name = set.without [name] := by
  rw [← set.without_nil, erase_without, without_nil, List.nil_append]

theorem sorted_eq_of_mem_iff {a b : NameSet} (h : ∀ name, name ∈ a ↔ name ∈ b) : a.sorted = b.sorted := by
  have hperm : a.names.Perm b.names := (List.perm_ext_iff_of_nodup a.nodup b.nodup).2 h
  have hsorted : (sortedNames a.names).Perm (sortedNames b.names) :=
    (List.mergeSort_perm _ _).trans (hperm.trans (List.mergeSort_perm _ _).symm)
  exact hsorted.eq_of_pairwise' (List.pairwise_mergeSort' (· ≤ ·) a.names) (List.pairwise_mergeSort' (· ≤ ·) b.names)

end NameSet

namespace FileEntry

theorem without_without (names names' keys keys' : List String) (entry : FileEntry) :
    (entry.without names keys).without names' keys' = entry.without (names ++ names') (keys ++ keys') := by
  simp only [without, NameSet.without_without]

theorem without_of_not_mem {names keys : List String} {entry : FileEntry}
    (hnames : ∀ name ∈ names, name ∉ entry.factories) (hkeys : ∀ key ∈ keys, key ∉ entry.traits) :
    entry.without names keys = entry := by
  simp only [without, NameSet.without_of_not_mem hnames, NameSet.without_of_not_mem hkeys]

theorem dropFactory_eq_without (name : String) : dropFactory name = without [name] [] := by
  funext entry
  simp only [dropFactory, without, NameSet.erase_eq_without, NameSet.without_nil]

theorem dropTrait_eq_without (key : String) : dropTrait key = without [] [key] := by
  funext entry
  simp only [dropTrait, without, NameSet.erase_eq_without, NameSet.without_nil]

end FileEntry

namespace Store

/-! ### One kind of definition -/

section Kinds

variable {α : Type} {kind : Kind α} {store : Store} {file other : RawText} {now later : Int} {values : List α}
  {key : String}

/-- The map without what comes from a file. -/
def Kind.outside (kind : Kind α) (file : RawText) (m : ExpiringMap α) : ExpiringMap α :=
  { m with entries := m.entries.filter fun _ entry => decide (kind.fileOf entry.value ≠ file) }

/-- The map with definitions, written at one time, in place of what comes from a file. -/
def Kind.exchange (kind : Kind α) (file : RawText) (now : Int) (values : List α) (m : ExpiringMap α) : ExpiringMap α :=
  (kind.outside file m).putAll now kind.keyOf values

/-- What a file is noted for is what comes from it. -/
theorem Kind.Attributed.without_eq_outside (h : kind.Attributed store) {keys : List String}
    (hkeys : ∀ key, kind.Noted store file key ↔ key ∈ keys) :
    (kind.map store).without keys = kind.outside file (kind.map store) := by
  have hentries : (kind.map store).entries.entries.filter (fun entry => decide (entry.1 ∉ keys)) =
      (kind.map store).entries.entries.filter fun entry => decide (kind.fileOf entry.2.value ≠ file) := by
    refine List.filter_congr fun entry hentry => decide_eq_decide.2 (not_congr ?_)
    have hstored : kind.stored store entry.1 = some entry.2.value := by
      rw [stored, ExpiringMap.peek?, ((kind.map store).entries.get?_eq_some_iff entry.1 entry.2).2 hentry,
        Option.map_some]
    rw [← hkeys, h.noted_iff_of_stored hstored, eq_comm]
  simp only [ExpiringMap.without, outside, OrderedMap.filter, hentries]

theorem lifetime_exchange (m : ExpiringMap α) : (kind.exchange file now values m).lifetime = m.lifetime :=
  ExpiringMap.lifetime_putAll ..

theorem findRev?_of_mem_keys (hkey : key ∈ values.map kind.keyOf) :
    ∃ last ∈ values, kind.keyOf last = key ∧ values.findRev? (fun value => kind.keyOf value = key) = some last := by
  obtain ⟨value, hvalue, hvalueKey⟩ := List.mem_map.1 hkey
  have hsome : (values.findRev? fun value => kind.keyOf value = key).isSome = true := by
    rw [List.findRev?_eq_find?_reverse, List.find?_isSome]
    exact ⟨value, List.mem_reverse.2 hvalue, decide_eq_true hvalueKey⟩
  obtain ⟨last, hlast⟩ := Option.isSome_iff_exists.1 hsome
  have hfind := hlast
  rw [List.findRev?_eq_find?_reverse] at hfind
  have hlastKey := List.find?_some hfind
  exact ⟨last, List.mem_reverse.1 (List.mem_of_find?_eq_some hfind), of_decide_eq_true hlastKey, hlast⟩

theorem findRev?_of_not_mem_keys (hkey : key ∉ values.map kind.keyOf) :
    values.findRev? (fun value => kind.keyOf value = key) = none := by
  rw [List.findRev?_eq_find?_reverse, List.find?_eq_none]
  intro value hvalue heq
  exact hkey (List.mem_map.2 ⟨value, List.mem_reverse.1 hvalue, of_decide_eq_true heq⟩)

theorem get?_exchange_of_not_mem (hkey : key ∉ values.map kind.keyOf) (m : ExpiringMap α) :
    (kind.exchange file now values m).entries.get? key =
      (m.entries.get? key).filter fun entry => decide (kind.fileOf entry.value ≠ file) := by
  rw [Kind.exchange, ExpiringMap.get?_putAll, findRev?_of_not_mem_keys hkey, Option.map_none, Option.none_or,
    Kind.outside, OrderedMap.get?_filter]

/-- Just after definitions were written, a look-up of their keys shows the last one. -/
theorem live?_exchange_of_mem (kind : Kind α) {m : ExpiringMap α} (hkey : key ∈ values.map kind.keyOf)
    (hlater : outlasts now later m.lifetime = false) :
    (kind.exchange file now values m).live? later key = values.findRev? fun value => kind.keyOf value = key := by
  obtain ⟨last, -, -, hlast⟩ := findRev?_of_mem_keys hkey
  have hentry : (kind.exchange file now values m).entries.get? key = some ⟨last, now⟩ := by
    rw [Kind.exchange, ExpiringMap.get?_putAll, hlast, Option.map_some, Option.some_or]
  rw [ExpiringMap.live?, ExpiringMap.hasExpired, ExpiringMap.peek?, hentry, Option.any_some, ExpiringMap.expired,
    lifetime_exchange, hlater, hlast]
  rfl

/-- To write the same definitions once more changes no look-up, unless it is for one of them that has expired. -/
theorem live?_exchange_again {m : ExpiringMap α} {again : Int}
    (hlive : key ∈ values.map kind.keyOf →
      outlasts now later m.lifetime = false ∧ outlasts again later m.lifetime = false) :
    (kind.exchange file again values (kind.exchange file now values m)).live? later key =
      (kind.exchange file now values m).live? later key := by
  by_cases hkey : key ∈ values.map kind.keyOf
  · obtain ⟨hlater, hagain⟩ := hlive hkey
    rw [live?_exchange_of_mem kind hkey (by rwa [lifetime_exchange]), live?_exchange_of_mem kind hkey hlater]
  · have hentry : (kind.exchange file again values (kind.exchange file now values m)).entries.get? key =
        (kind.exchange file now values m).entries.get? key := by
      rw [get?_exchange_of_not_mem hkey, get?_exchange_of_not_mem hkey, Option.filter_filter]
      simp only [Bool.and_self]
    have hexpired : (kind.exchange file again values (kind.exchange file now values m)).expired later =
        (kind.exchange file now values m).expired later := by
      funext entry
      rw [ExpiringMap.expired, ExpiringMap.expired, lifetime_exchange]
    rw [ExpiringMap.live?, ExpiringMap.live?, ExpiringMap.hasExpired, ExpiringMap.hasExpired, ExpiringMap.peek?,
      ExpiringMap.peek?, hentry, hexpired]

/-- What comes from other files stays as it is, except for what has one of the keys. -/
theorem filter_exchange (kind : Kind α) (hfile : ∀ value ∈ values, kind.fileOf value = file) (m : ExpiringMap α) :
    (kind.exchange file now values m).entries.filter (fun _ entry => decide (kind.fileOf entry.value ≠ file)) =
      (m.without (values.map kind.keyOf)).entries.filter fun _ entry => decide (kind.fileOf entry.value ≠ file) := by
  rw [Kind.exchange, ExpiringMap.filter_putAll fun value hvalue => decide_eq_false (not_not.2 (hfile value hvalue))]
  simp only [ExpiringMap.without, Kind.outside, OrderedMap.filter_filter]
  congr 1
  funext key entry
  rw [Bool.and_comm (decide _), Bool.and_assoc, Bool.and_self]

theorem noted_iff_of_exchange {after : Store} (h : kind.Attributed after)
    (hfile : ∀ value ∈ values, kind.fileOf value = file)
    (hmap : kind.map after = kind.exchange file now values (kind.map store)) (key : String) :
    kind.Noted after file key ↔ key ∈ values.map kind.keyOf := by
  rw [h.noted_iff]
  by_cases hkey : key ∈ values.map kind.keyOf
  · obtain ⟨last, hmem, -, hlast⟩ := findRev?_of_mem_keys hkey
    have hstored : kind.stored after key = some last := by
      rw [Kind.stored, hmap, ExpiringMap.peek?, Kind.exchange, ExpiringMap.get?_putAll, hlast]
      rfl
    exact ⟨fun _ => hkey, fun _ => ⟨last, hstored, hfile last hmem⟩⟩
  · refine ⟨?_, fun hmem => absurd hmem hkey⟩
    rintro ⟨value, hstored, hvalue⟩
    rw [Kind.stored, hmap, ExpiringMap.peek?, get?_exchange_of_not_mem hkey, Option.map_eq_some_iff] at hstored
    obtain ⟨entry, hentry, rfl⟩ := hstored
    exact absurd hvalue (of_decide_eq_true (Option.filter_eq_some_iff.1 hentry).2)

/-- What came from the file and was not written again is gone. -/
theorem stored_eq_none_of_exchange {after : Store} (h : kind.Attributed store)
    (hmap : kind.map after = kind.exchange file now values (kind.map store)) (hnoted : kind.Noted store file key)
    (hkey : key ∉ values.map kind.keyOf) : kind.stored after key = none := by
  obtain ⟨value, hstored, hvalue⟩ := (h.noted_iff file key).1 hnoted
  obtain ⟨entry, hentry, rfl⟩ := Option.map_eq_some_iff.1 hstored
  rw [Kind.stored, hmap, ExpiringMap.peek?, get?_exchange_of_not_mem hkey, hentry, Option.filter_some,
    if_neg (by simp [hvalue]), Option.map_none]

theorem get?_release (h : kind.Attributed store)
    (hdrop : ∀ key entry, key ∉ kind.names entry → kind.drop key entry = entry) {value : α}
    (hother : other ≠ kind.fileOf value) :
    (kind.release store value).files.get? other =
      (store.files.get? other).map (kind.drop (kind.keyOf value)) := by
  have hsame (hnot : ¬ kind.Noted store other (kind.keyOf value)) :
      (store.files.get? other).map (kind.drop (kind.keyOf value)) = store.files.get? other := by
    cases hentry : store.files.get? other with
    | none => rfl
    | some entry => rw [Option.map_some, hdrop _ _ fun hmem => hnot ⟨entry, hentry, hmem⟩]
  unfold Kind.release
  cases hprevious : kind.stored store (kind.keyOf value) with
  | none => exact (hsame (h.not_noted_of_stored_eq_none hprevious other)).symm
  | some previous =>
      have hnoted := h.noted_iff_of_stored hprevious other
      simp only
      split
      · next hfile => exact (hsame fun hmem => hother ((hnoted.1 hmem).trans hfile)).symm
      · rw [get?_updateFile]
        split
        · next heq => rw [heq]
        · next hne => exact (hsame fun hmem => hne (hnoted.1 hmem)).symm

end Kinds

/-! ### Both kinds -/

variable {store : Store} {file other : RawText}

theorem maps_removeFile (h : Attributed store) (file : RawText) :
    (store.removeFile file).factories = Kind.factory.outside file store.factories ∧
      (store.removeFile file).traits = Kind.trait.outside file store.traits := by
  unfold removeFile
  split
  · next entry hentry =>
    simp only [ExpiringMap.foldl_erase]
    refine ⟨h.factories.without_eq_outside fun name => ?_, h.traits.without_eq_outside fun key => ?_⟩
    · simp [Kind.Noted, hentry, Kind.factory, Membership.mem]
    · simp [Kind.Noted, hentry, Kind.trait, Membership.mem]
  · next hnone =>
    have hnothing {α : Type} (kind : Kind α) (key : String) : kind.Noted store file key ↔ key ∈ [] := by
      simp [Kind.Noted, hnone]
    have hfactories := h.factories.without_eq_outside (hnothing .factory)
    have htraits := h.traits.without_eq_outside (hnothing .trait)
    rw [ExpiringMap.without_nil] at hfactories htraits
    exact ⟨hfactories, htraits⟩

theorem maps_replaceFile (h : Attributed store) (clock : Clock) (file : RawText) (factories : List Factory)
    (traits : List Trait) (modified : Option Int) :
    (store.replaceFile clock file factories traits modified).factories =
        Kind.factory.exchange file clock.monotonic factories store.factories ∧
      (store.replaceFile clock file factories traits modified).traits =
        Kind.trait.exchange file clock.monotonic traits store.traits := by
  obtain ⟨hfactories, htraits⟩ := maps_removeFile h file
  obtain ⟨hfirst, hkept⟩ := maps_foldl Store.factories Store.traits
    (fun m factory => m.put clock.monotonic factory.name factory) (maps_upsertFactory clock) factories
    (store.removeFile file)
  obtain ⟨hsecond, hkept'⟩ := maps_foldl Store.traits Store.factories
    (fun m t => m.put clock.monotonic t.key t) (maps_upsertTrait clock) traits
    (factories.foldl (upsertFactory clock) (store.removeFile file))
  rw [hfactories] at hfirst
  rw [hkept, htraits] at hsecond
  exact ⟨hkept'.trans hfirst, hsecond⟩

theorem get?_upsertFactory_of_ne (h : Attributed store) (clock : Clock) {factory : Factory}
    (hother : other ≠ factory.location.file) :
    (store.upsertFactory clock factory).files.get? other =
      (store.files.get? other).map (FileEntry.without [factory.name] []) := by
  have hdrop (name : String) (entry : FileEntry) (hname : name ∉ entry.factories) : entry.dropFactory name = entry := by
    rw [FileEntry.dropFactory_eq_without]
    exact FileEntry.without_of_not_mem (List.forall_mem_singleton.2 hname) (List.forall_mem_nil _)
  have hrelease := get?_release h.factories hdrop hother
  rw [upsertFactory, releaseFactory_eq, get?_ensureFile, if_neg hother, ← FileEntry.dropFactory_eq_without]
  exact hrelease

theorem get?_upsertTrait_of_ne (h : Attributed store) (clock : Clock) {t : Trait} (hother : other ≠ t.location.file) :
    (store.upsertTrait clock t).files.get? other =
      (store.files.get? other).map (FileEntry.without [] [t.key]) := by
  have hdrop (key : String) (entry : FileEntry) (hkey : key ∉ entry.traits) : entry.dropTrait key = entry := by
    rw [FileEntry.dropTrait_eq_without]
    exact FileEntry.without_of_not_mem (List.forall_mem_nil _) (List.forall_mem_singleton.2 hkey)
  have hrelease := get?_release h.traits hdrop hother
  rw [upsertTrait, releaseTrait_eq, get?_ensureFile, if_neg hother, ← FileEntry.dropTrait_eq_without]
  exact hrelease

/-- A file loses the keys that some steps take from it, each of them one. -/
theorem get?_foldl_of_step {β : Type} {step : Store → β → Store} {keyOf : β → String} (other : RawText)
    (without : List String → FileEntry → FileEntry) (hnil : ∀ entry, without [] entry = entry)
    (hcons : ∀ key keys entry, without keys (without [key] entry) = without (key :: keys) entry) {items : List β}
    (hattributed : ∀ store item, Attributed store → Attributed (step store item))
    (hstep : ∀ store, ∀ item ∈ items, Attributed store →
      (step store item).files.get? other = (store.files.get? other).map (without [keyOf item]))
    (h : Attributed store) :
    (items.foldl step store).files.get? other = (store.files.get? other).map (without (items.map keyOf)) := by
  induction items generalizing store with
  | nil => rw [List.foldl_nil, List.map_nil, funext hnil, Option.map_id']
  | cons item rest ih =>
      have hrest := ih (fun store item hitem => hstep store item (List.mem_cons_of_mem _ hitem))
        (hattributed store item h)
      rw [List.foldl_cons, hrest, hstep store item List.mem_cons_self h, Option.map_map]
      congr 1
      funext entry
      exact hcons (keyOf item) (rest.map keyOf) entry

theorem get?_removeFile_of_ne (hother : other ≠ file) :
    (store.removeFile file).files.get? other = store.files.get? other := by
  unfold removeFile
  split
  · rw [OrderedMap.get?_erase, if_neg hother]
  · rfl

section Contents

variable {factories : List Factory} {traits : List Trait}
  (hfactories : ∀ factory ∈ factories, factory.location.file = file) (htraits : ∀ t ∈ traits, t.location.file = file)

include hfactories htraits

theorem entry_replaceFile (h : Attributed store) (clock : Clock) (modified : Option Int) :
    ∃ entry, (store.replaceFile clock file factories traits modified).files.get? file = some entry ∧
      entry.lastModified = modified.getD clock.wall ∧
      (∀ name, name ∈ entry.factories ↔ name ∈ factories.map Factory.name) ∧
      ∀ key, key ∈ entry.traits ↔ key ∈ traits.map Trait.key := by
  have hafter := h.replaceFile clock file factories traits modified
  obtain ⟨hmap, hmap'⟩ := maps_replaceFile h clock file factories traits modified
  have hentry : ∃ entry, (store.replaceFile clock file factories traits modified).files.get? file = some entry ∧
      entry.lastModified = modified.getD clock.wall := by
    rw [replaceFile, get?_ensureFile, if_pos rfl]
    exact ⟨_, rfl, rfl⟩
  obtain ⟨entry, hentry, hmodified⟩ := hentry
  have hnoted {α : Type} (kind : Kind α) (key : String) :
      key ∈ kind.names entry ↔ kind.Noted (store.replaceFile clock file factories traits modified) file key := by
    rw [Kind.Noted, hentry]
    simp
  refine ⟨entry, hentry, hmodified, fun name => ?_, fun key => ?_⟩
  · exact (hnoted .factory name).trans (noted_iff_of_exchange hafter.factories hfactories hmap name)
  · exact (hnoted .trait key).trans (noted_iff_of_exchange hafter.traits htraits hmap' key)

theorem get?_replaceFile_of_ne (h : Attributed store) (clock : Clock) (modified : Option Int) (hother : other ≠ file) :
    (store.replaceFile clock file factories traits modified).files.get? other =
      (store.files.get? other).map (FileEntry.without (factories.map Factory.name) (traits.map Trait.key)) := by
  have hnil (entry : FileEntry) : entry.without [] [] = entry :=
    FileEntry.without_of_not_mem (List.forall_mem_nil _) (List.forall_mem_nil _)
  have hremoved := h.removeFile file
  have hfirst := get?_foldl_of_step other (fun names => FileEntry.without names []) hnil
    (fun _ _ _ => FileEntry.without_without ..) (Attributed.upsertFactory clock)
    (fun store factory hfactory hstore => get?_upsertFactory_of_ne hstore clock (hfactories factory hfactory ▸ hother))
    hremoved
  have hsecond := get?_foldl_of_step other (FileEntry.without []) hnil
    (fun _ _ _ => FileEntry.without_without ..) (Attributed.upsertTrait clock)
    (fun store t ht hstore => get?_upsertTrait_of_ne hstore clock (htraits t ht ▸ hother))
    (hremoved.foldl (Attributed.upsertFactory clock) factories)
  rw [replaceFile, get?_ensureFile, if_neg hother, hsecond, hfirst, get?_removeFile_of_ne hother, Option.map_map]
  congr 1
  funext entry
  rw [Function.comp_apply, FileEntry.without_without, List.append_nil, List.nil_append]

theorem contributions?_replaceFile_again (h : Attributed store) (clock later : Clock) (modified : Option Int)
    (other : RawText) :
    ((store.replaceFile clock file factories traits modified).replaceFile later file factories traits
        modified).contributions? other =
      (store.replaceFile clock file factories traits modified).contributions? other := by
  have hafter := h.replaceFile clock file factories traits modified
  unfold contributions?
  by_cases hother : other = file
  · subst hother
    obtain ⟨entry, hentry, -, hnames, hkeys⟩ := entry_replaceFile hfactories htraits h clock modified
    obtain ⟨entry', hentry', -, hnames', hkeys'⟩ := entry_replaceFile hfactories htraits hafter later modified
    rw [hentry, hentry', Option.map_some, Option.map_some,
      NameSet.sorted_eq_of_mem_iff fun name => (hnames' name).trans (hnames name).symm,
      NameSet.sorted_eq_of_mem_iff fun key => (hkeys' key).trans (hkeys key).symm]
  · rw [get?_replaceFile_of_ne hfactories htraits hafter later modified hother,
      get?_replaceFile_of_ne hfactories htraits h clock modified hother]
    -- What was taken over once has nothing left to be taken over.
    have hsame (names keys : List String) (entry : FileEntry) :
        (entry.without names keys).without names keys = entry.without names keys := by
      rw [FileEntry.without_without]
      simp only [FileEntry.without, NameSet.without, List.mem_append, or_self]
    cases store.files.get? other with
    | none => rfl
    | some entry => simp only [Option.map_some, hsame]

end Contents

/-! ### Time to live -/

/-- Both maps have one lifetime, and what was written is live until it has passed. -/
theorem not_outlasts_of_reachable (hstore : store.Reachable) {now later : Int}
    (hlater : later - now ≤ (seconds store.factories.lifetime).ticks) :
    outlasts now later store.factories.lifetime = false ∧ outlasts now later store.traits.lifetime = false := by
  have h := hstore.attainable.coherent
  have hpos : 0 ≤ store.factories.lifetime := (by decide : (0 : Int) ≤ minTtl).trans h.minTtl_le_factories
  have hlive := not_outlasts_of_le hpos hlater
  have hsame : store.traits.lifetime = store.factories.lifetime := h.traits_eq_factories
  exact ⟨hlive, hsame.symm ▸ hlive⟩

/-- **Replacing the contents of a file is exact and touches nothing else.** Take any state of a store, any definitions
located in a file and a time at which the file was modified. Afterwards the file is noted for the names and keys of
these definitions and for nothing else; a look-up at once, and until the lifetime of the maps has passed, shows the
last definition of each; whatever else came from the file is gone. The entries that come from other files are those of
before without the names and keys in question, each with its value, its time and its place among the others, and so is
what other files are noted for; these keep the times at which they were modified. The file has to be indexed anew just
if it is modified after the given time. To do all of this once more changes no contribution and no look-up, unless it is
for one of these definitions when the lifetime has passed since they were written either time. -/
theorem replaceFile_exact (hstore : store.Reachable) (moment : Moment) {factories : List Factory}
    {traits : List Trait} (hfactories : ∀ factory ∈ factories, factory.location.file = file)
    (htraits : ∀ t ∈ traits, t.location.file = file) (modified : Int) :
    let names := factories.map Factory.name
    let keys := traits.map Trait.key
    let after := store.replaceFile moment.clock file factories traits (some modified)
    let lifetime := (seconds store.factories.lifetime).ticks
    Timed.replaceFile moment.clock store file factories traits (some modified) = (after, .ok ()) ∧
      (∃ entry, after.files.get? file = some entry ∧
        (∀ name, name ∈ entry.factories ↔ name ∈ names) ∧ ∀ key, key ∈ entry.traits ↔ key ∈ keys) ∧
      (∀ clock : Clock, clock.monotonic - moment.clock.monotonic ≤ lifetime →
        (∀ name ∈ names, after.factory? clock name = factories.findRev? fun factory => factory.name = name) ∧
        ∀ t ∈ traits, after.trait? clock t.factory t.name = traits.findRev? fun other => other.key = t.key) ∧
      (∀ entry, store.files.get? file = some entry →
        (∀ name ∈ entry.factories, name ∉ names → after.factories.peek? name = none) ∧
        ∀ key ∈ entry.traits, key ∉ keys → after.traits.peek? key = none) ∧
      after.factories.entries.filter (fun _ entry => decide (entry.value.location.file ≠ file)) =
        (store.factories.without names).entries.filter (fun _ entry => decide (entry.value.location.file ≠ file)) ∧
      after.traits.entries.filter (fun _ entry => decide (entry.value.location.file ≠ file)) =
        (store.traits.without keys).entries.filter (fun _ entry => decide (entry.value.location.file ≠ file)) ∧
      (∀ other ≠ file, after.files.get? other = (store.files.get? other).map (FileEntry.without names keys)) ∧
      (∀ time, after.shouldReindex file time = true ↔ modified < time) ∧
      ∀ later : Moment,
        let again := after.replaceFile later.clock file factories traits (some modified)
        (∀ other, again.contributions? other = after.contributions? other) ∧
        ∀ clock : Clock,
          let live := clock.monotonic - moment.clock.monotonic ≤ lifetime ∧
            clock.monotonic - later.clock.monotonic ≤ lifetime
          (∀ name, (name ∈ names → live) → again.factory? clock name = after.factory? clock name) ∧
          ∀ factory name, (traitKey factory name ∈ keys → live) →
            again.trait? clock factory name = after.trait? clock factory name := by
  intro names keys after lifetime
  have h := Attributed.of_reachable hstore
  have hafter : Attributed after := h.replaceFile moment.clock file factories traits (some modified)
  have hlong {now later : Int} (hlater : later - now ≤ lifetime) := not_outlasts_of_reachable hstore hlater
  obtain ⟨hmap, hmap'⟩ := maps_replaceFile h moment.clock file factories traits (some modified)
  obtain ⟨entry, hentry, hmodified, hnames, hkeys⟩ :=
    entry_replaceFile hfactories htraits h moment.clock (some modified)
  refine ⟨Timed.replaceFile_of_readable moment.measures moment.tellsDay store file factories traits (some modified),
    ⟨entry, hentry, hnames, hkeys⟩, fun clock hclock => ⟨fun name hname => ?_, fun t ht => ?_⟩,
    fun old hold => ⟨fun name hname hnew => ?_, fun key hkey hnew => ?_⟩, ?_, ?_,
    fun other hother => get?_replaceFile_of_ne hfactories htraits h moment.clock (some modified) hother, fun time => ?_,
    fun later => ⟨fun other => contributions?_replaceFile_again hfactories htraits h moment.clock later.clock _ other,
      fun clock => ⟨fun name hlive => ?_, fun factory name hlive => ?_⟩⟩⟩
  · rw [factory?, hmap]
    exact live?_exchange_of_mem .factory hname (hlong hclock).1
  · rw [trait?, hmap']
    exact live?_exchange_of_mem .trait (List.mem_map.2 ⟨t, ht, rfl⟩) (hlong hclock).2
  · exact stored_eq_none_of_exchange h.factories hmap ⟨old, hold, hname⟩ hnew
  · exact stored_eq_none_of_exchange h.traits hmap' ⟨old, hold, hkey⟩ hnew
  · rw [hmap]
    exact filter_exchange .factory hfactories store.factories
  · rw [hmap']
    exact filter_exchange .trait htraits store.traits
  · simp only [shouldReindex, after, hentry, hmodified, Option.getD_some, decide_eq_true_eq]
  · rw [factory?, factory?, (maps_replaceFile hafter later.clock file factories traits (some modified)).1, hmap]
    exact live?_exchange_again fun hname => (hlive hname).imp (hlong · |>.1) (hlong · |>.1)
  · rw [trait?, trait?, (maps_replaceFile hafter later.clock file factories traits (some modified)).2, hmap']
    exact live?_exchange_again fun hkey => (hlive hkey).imp (hlong · |>.2) (hlong · |>.2)

/-- A file that defined two factories takes over one of another file, with its trait, and defines a third one twice. -/
theorem replaceFile_exact_taken :
    let clock (time : Int) : Clock := ⟨reading time, reading time⟩
    let factory (name : String) (file : RawText) (line : Nat) : Factory := { name, location := { file, line } }
    let admin (file : RawText) : Trait := { name := "admin", location := { file, line := 1 }, factory := "post" }
    let store := ((((empty 60000).perform (clock 0) (.upsertFactory (factory "page" "a.rb" 0))).1.perform (clock 0)
      (.upsertFactory (factory "post" "b.rb" 0))).1.perform (clock 0) (.upsertTrait (admin "b.rb"))).1
    let after := store.replaceFile (clock 5000) "a.rb"
      [factory "post" "a.rb" 0, factory "user" "a.rb" 2, factory "user" "a.rb" 4] [admin "a.rb"] (some (reading 4000))
    store.contributions? "b.rb" = some (["post"], ["post:admin"]) ∧
      after.factory? (clock 5000) "user" = some (factory "user" "a.rb" 4) ∧
      after.trait? (clock 65000) "post" "admin" = some (admin "a.rb") ∧
      after.factories.peek? "page" = none ∧ after.contributions? "b.rb" = some ([], []) ∧
      (after.shouldReindex "a.rb" (reading 4000) = true ↔ reading 4000 < reading 4000) := by
  intro clock factory admin store after
  let early : Moment := ⟨clock 0, by decide +kernel, by decide +kernel⟩
  let late : Moment := ⟨clock 5000, by decide +kernel, by decide +kernel⟩
  have hcreate : create (.int 60000) = .ok (empty 60000) := by rfl
  have hnew : Reachable (empty 60000) := .start hcreate
  have hstore : Reachable store := .step early _ (.step early _ (.step early _ hnew))
  have hfactories : ∀ f ∈ [factory "post" "a.rb" 0, factory "user" "a.rb" 2, factory "user" "a.rb" 4],
      f.location.file = "a.rb" := by simp [factory]
  have htraits : ∀ t ∈ [admin "a.rb"], t.location.file = "a.rb" := by simp [admin]
  obtain ⟨-, -, hfound, hgone, -, -, hothers, hreindex, -⟩ :=
    replaceFile_exact hstore late hfactories htraits (reading 4000)
  have hpage : "page" ∉ ["post", "user", "user"] := by decide
  have hnames : (store.files.get? "a.rb").map (fun entry => entry.factories.names) = some ["page"] := by decide +kernel
  obtain ⟨old, hold, hpageNoted⟩ := Option.map_eq_some_iff.1 hnames
  have hpageGone : after.factories.peek? "page" = none := by
    refine (hgone old hold).1 "page" ?_ hpage
    show "page" ∈ old.factories.names
    rw [hpageNoted]
    exact List.mem_singleton.2 rfl
  have hother : (after.files.get? "b.rb").map (fun entry => (entry.factories.sorted, entry.traits.sorted)) =
      some ([], []) := by
    rw [hothers "b.rb" (by decide)]
    decide +kernel
  exact ⟨by decide +kernel, (hfound (clock 5000) (by decide +kernel)).1 "user" (by simp [factory]),
    (hfound (clock 65000) (by decide +kernel)).2 (admin "a.rb") (by simp),
    hpageGone, hother, hreindex (reading 4000)⟩

end Store

end FactoryIndex
