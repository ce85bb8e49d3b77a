import FactoryIndex.Proofs.Settings.Ranges
import FactoryIndex.Proofs.Store.Lifetime
import FactoryIndex.Proofs.Workspace.Priority

/-!
# What can be loaded, and what can be done with it

Loading puts defaults in place of values that cannot be used, so that whatever is given there are settings, and settings
that serve. Three kinds of values slip through. Where a whole number is needed, an infinite number makes loading itself
fail. A life of definitions may be too short but not too long, and no store can be made for one that is out of the range
of numbers. Markers of the order of priority are kept whatever they are, and by one that is no text no files can be put
in order.

There are no others. All that comes from the environment is text, and so it is only ever a life that is too long.
-/

namespace FactoryIndex

namespace Settings

open Value

variable {fields : Fields} {settings : Settings}

/-! ### The fields that decide -/

/-- The fields that settings are loaded from: those of the environment, with others over them. -/
def merged (overrides : Fields) (environment : OrderedMap RawText RawText) : Fields :=
  overrides.foldl (fun fields field => OrderedMap.put field.1 field.2 fields) (environmentFields environment)

theorem load_object (overrides : Fields) (environment : OrderedMap RawText RawText) :
    load (.object overrides) environment = ofFields (merged overrides environment) := by
  cases overrides with
  | nil => rfl
  | cons field rest => rfl

theorem lookup?_put (fields : Fields) (name other : RawText) (value : Value) :
    lookup? (OrderedMap.put name value fields) other = if other = name then some value else lookup? fields other :=
  OrderedMap.find?_put name other value fields

/-- The last of the others that has a name counts, and only without one the environment. -/
theorem lookup?_merged (overrides : Fields) (environment : OrderedMap RawText RawText) (name : RawText) :
    lookup? (merged overrides environment) name =
      ((overrides.findRev? fun field => field.1 = name).map Prod.snd).or
        (lookup? (environmentFields environment) name) := by
  refine OrderedMap.lookup_foldl (lookup? · name) (fun fields field => ?_) overrides _
  simp only [lookup?_put, decide_eq_true_eq, @eq_comm _ name]

def FiniteNumbers (fields : Fields) : Prop :=
  ∀ name ∈ ["cache_timeout", "batch_size"], ∀ sign, lookup? fields (.plain name) ≠ some (.double (.infinite sign))

def TimeoutInRange (fields : Fields) : Prop :=
  ∀ value, lookup? fields "cache_timeout" = some value → ∀ n, value.toInt = .ok n → n < Double.overflowBound

/-- Markers that are given one by one are texts, as far as they are not dropped. -/
def MarkersText (fields : Fields) : Prop :=
  ∀ items, lookup? fields "priority_order" = some (.list items) → ∀ item ∈ items, item.truthy = true →
    item.isText = true

/-! ### Loading -/

theorem toInt_eq_error_infinite_iff {value : Value} :
    value.toInt = .error .infinite ↔ ∃ sign, value = .double (.infinite sign) := by
  constructor
  · intro hvalue
    cases value with
    | double d =>
        cases d with
        | infinite sign => exact ⟨sign, rfl⟩
        | _ => cases hvalue
    | raw text =>
        rw [toInt] at hvalue
        split at hvalue
        · cases hvalue
        · unfold NumberFault.ofText at hvalue
          split at hvalue
          · cases hvalue
          · cases hvalue
    | _ => cases hvalue
  · rintro ⟨sign, rfl⟩
    rfl

/-- A reader of a whole number gives something for every value but an infinite number. -/
structure NeedsFinite {α : Type} (read : Value → Except Failure (List LogRecord × α)) : Prop where
  read_infinite : ∀ sign, read (.double (.infinite sign)) = .error .infiniteInteger
  exists_read : ∀ value, (∀ sign, value ≠ .double (.infinite sign)) → ∃ result, read value = .ok result

theorem needsFinite_readTimeout : NeedsFinite readTimeout where
  read_infinite _ := rfl
  exists_read value hfinite := by
    unfold readTimeout
    split
    · exact ⟨_, rfl⟩
    · next hvalue =>
      obtain ⟨sign, heq⟩ := toInt_eq_error_infinite_iff.1 hvalue
      exact absurd heq (hfinite sign)
    · exact ⟨_, rfl⟩

theorem needsFinite_readBatchSize : NeedsFinite readBatchSize where
  read_infinite _ := rfl
  exists_read value hfinite := by
    unfold readBatchSize
    split
    · exact ⟨_, rfl⟩
    · next hvalue =>
      obtain ⟨sign, heq⟩ := toInt_eq_error_infinite_iff.1 hvalue
      exact absurd heq (hfinite sign)
    · exact ⟨_, rfl⟩

/-- A setting that needs a whole number is there, or there is an infinite number under its name. -/
theorem setting?_cases {α : Type} {read : Value → Except Failure (List LogRecord × α)} (hread : NeedsFinite read)
    (fields : Fields) (name : String) (fallback : α) :
    (∃ result, setting? fields name read fallback = .ok result ∧
        ∀ sign, lookup? fields name ≠ some (.double (.infinite sign))) ∨
      (setting? fields name read fallback = .error .infiniteInteger ∧
        ∃ sign, lookup? fields name = some (.double (.infinite sign))) := by
  unfold setting?
  cases hlookup : lookup? fields name with
  | none => exact .inl ⟨_, rfl, fun sign => by simp⟩
  | some value =>
      by_cases hvalue : ∃ sign, value = .double (.infinite sign)
      · obtain ⟨sign, rfl⟩ := hvalue
        exact .inr ⟨hread.read_infinite sign, sign, rfl⟩
      · rw [not_exists] at hvalue
        obtain ⟨result, hresult⟩ := hread.exists_read value hvalue
        exact .inl ⟨result, hresult, fun sign heq => hvalue sign (Option.some.inj heq)⟩

theorem outcome_ofFields (fields : Fields) :
    (FiniteNumbers fields → ∃ settings, (ofFields fields).outcome = .ok settings) ∧
      (¬FiniteNumbers fields → (ofFields fields).outcome = .error .infiniteInteger) := by
  have htimeout := setting?_cases needsFinite_readTimeout fields "cache_timeout" defaultTimeout
  have hbatchSize := setting?_cases needsFinite_readBatchSize fields "batch_size" defaultBatchSize
  rw [FiniteNumbers, List.forall_mem_cons, List.forall_mem_singleton]
  simp only [ofFields]
  obtain ⟨timeout, htimeout, hfinite⟩ | ⟨htimeout, sign, hinfinite⟩ := htimeout
  · rw [htimeout]
    obtain ⟨batchSize, hbatchSize, hfinite'⟩ | ⟨hbatchSize, sign, hinfinite⟩ := hbatchSize
    · rw [hbatchSize]
      exact ⟨fun _ => ⟨_, rfl⟩, fun hnot => absurd ⟨hfinite, hfinite'⟩ hnot⟩
    · rw [hbatchSize]
      exact ⟨fun hfields => absurd hinfinite (hfields.2 sign), fun _ => rfl⟩
  · rw [htimeout]
    exact ⟨fun hfields => absurd hinfinite (hfields.1 sign), fun _ => rfl⟩

/-! ### Using what is loaded -/

theorem timeout_lt_iff {records : List LogRecord} {timeout : Int}
    (hsetting : setting? fields "cache_timeout" readTimeout default.cacheTimeout = .ok (records, timeout)) :
    timeout < Double.overflowBound ↔ TimeoutInRange fields := by
  have hmin : minTimeout < Double.overflowBound := by decide +kernel
  have hdefault : defaultTimeout < Double.overflowBound := by decide +kernel
  unfold TimeoutInRange
  unfold setting? at hsetting
  cases hlookup : lookup? fields "cache_timeout" with
  | none =>
      rw [hlookup] at hsetting
      cases hsetting
      refine ⟨fun _ value hvalue => ?_, fun _ => hdefault⟩
      cases hvalue
  | some value =>
      rw [hlookup] at hsetting
      simp only [readTimeout] at hsetting
      simp only [Option.some.injEq, forall_eq']
      cases hvalue : value.toInt with
      | ok n =>
          rw [hvalue] at hsetting
          cases hsetting
          simp only [Except.ok.injEq, forall_eq']
          generalize (Double.overflowBound : Int) = bound at hmin ⊢
          split <;> omega
      | error fault =>
          rw [hvalue] at hsetting
          cases fault with
          | infinite => cases hsetting
          | _ =>
              cases hsetting
              refine ⟨fun _ n hn => ?_, fun _ => hdefault⟩
              cases hn

/-- There is a store for a life of definitions just if the life is in range. -/
theorem exists_create_iff (settings : Settings) :
    (∃ store, Store.create (.int settings.cacheTimeoutMs) = .ok store) ↔
      settings.cacheTimeout < Double.overflowBound := by
  have hscaled : settings.cacheTimeoutMs < Store.ttlBound ↔ settings.cacheTimeout < Double.overflowBound := by
    unfold cacheTimeoutMs Store.ttlBound
    generalize (Double.overflowBound : Int) = bound
    omega
  rw [← hscaled]
  constructor
  · rintro ⟨store, hcreate⟩
    obtain ⟨n, hn, hlt, -⟩ := Store.create_eq_ok_iff.1 hcreate
    cases hn
    exact hlt
  · intro hlt
    exact ⟨_, Store.create_eq_ok_iff.2 ⟨_, rfl, hlt, rfl⟩⟩

/-- Trimming texts changes neither which items are texts nor which of the others count as true. -/
theorem isText_readPriority_iff {value : Value} :
    (∀ marker ∈ readPriority value, marker.isText = true) ↔
      ∀ items, value = .list items → ∀ item ∈ items, item.truthy = true → item.isText = true := by
  cases value with
  | list items =>
      simp only [readPriority, listItems, List.mem_filter, List.mem_map, list.injEq, forall_eq', and_imp,
        forall_exists_index, forall_apply_eq_imp_iff₂]
      refine forall₂_congr fun item _ => ?_
      cases item with
      | raw text => simp [isText]
      | _ => rfl
  | raw text =>
      have htexts : ∀ marker ∈ readPriority (.raw text), marker.isText = true := by
        intro marker hmarker
        obtain ⟨part, -, rfl⟩ := List.mem_map.1 (List.mem_filter.1 hmarker).1
        rfl
      refine ⟨fun _ items heq => ?_, fun _ => htexts⟩
      cases heq
  | _ =>
      refine ⟨fun _ items heq => ?_, fun _ => List.forall_mem_nil _⟩
      cases heq

theorem truthy_priorityOrder (hloaded : settings.LoadedFrom fields) :
    ∀ marker ∈ settings.priorityOrder, marker.truthy = true := by
  rw [hloaded.priority_eq]
  refine setting_of_forall (P := fun markers : List Value => ∀ marker ∈ markers, marker.truthy = true)
    (by decide +kernel) ?_
  exact fun value marker hmarker => (List.mem_filter.1 hmarker).2

theorem isText_priorityOrder_iff (hloaded : settings.LoadedFrom fields) :
    (∀ marker ∈ settings.priorityOrder, marker.isText = true) ↔ MarkersText fields := by
  rw [hloaded.priority_eq, MarkersText, setting]
  cases hlookup : lookup? fields "priority_order" with
  | none =>
      refine ⟨fun _ items heq => ?_, fun _ => by decide +kernel⟩
      cases heq
  | some value => simpa only [Option.some.injEq] using isText_readPriority_iff

/-! ### Environment variables -/

theorem isText_of_mem_put {name : RawText} {value : Value} (hvalue : value.isText = true)
    (hfields : ∀ field ∈ fields, field.2.isText = true) :
    ∀ field ∈ OrderedMap.put name value fields, field.2.isText = true := by
  induction fields with
  | nil => simpa [OrderedMap.put] using hvalue
  | cons field rest ih =>
      rw [List.forall_mem_cons] at hfields
      rw [OrderedMap.put]
      split
      · exact List.forall_mem_cons.2 ⟨hvalue, hfields.2⟩
      · exact List.forall_mem_cons.2 ⟨hfields.1, ih hfields.2⟩

theorem isText_environmentFields (environment : OrderedMap RawText RawText) :
    ∀ field ∈ environmentFields environment, field.2.isText = true := by
  refine List.foldlRecOn (motive := fun fields : Fields => ∀ field ∈ fields, field.2.isText = true)
    environment.entries _ (List.forall_mem_nil _) fun fields hfields entry _ => ?_
  simp only
  split
  · exact isText_of_mem_put rfl hfields
  · exact hfields

theorem isText_of_lookup? {name : RawText} {value : Value} (hfields : ∀ field ∈ fields, field.2.isText = true)
    (hlookup : lookup? fields name = some value) : value.isText = true := by
  obtain ⟨field, hfind, rfl⟩ := Option.map_eq_some_iff.1 hlookup
  exact hfields field (List.mem_of_find?_eq_some hfind)

theorem finiteNumbers_environmentFields (environment : OrderedMap RawText RawText) :
    FiniteNumbers (environmentFields environment) := by
  intro name _ sign hlookup
  cases isText_of_lookup? (isText_environmentFields environment) hlookup

theorem markersText_environmentFields (environment : OrderedMap RawText RawText) :
    MarkersText (environmentFields environment) := by
  intro items hlookup
  cases isText_of_lookup? (isText_environmentFields environment) hlookup

/-- **Loading, and what is loaded, is all right but for three kinds of values.** Let there be any fields and any
environment, and take for each name the last field of that name, or else the variable. Loading gives settings unless the
life of definitions or the size of groups is an infinite number, which is out of range. There is a store for the
settings just if the life of definitions is below the bound of numbers, as far as it is a number, and all files can be
put in order by the markers just if these are texts, as far as they count as true. From the environment alone settings
are always loaded, and all files can be put in order by their markers. -/
theorem load_succeeds_iff (overrides : Fields) (environment : OrderedMap RawText RawText) :
    let fields := merged overrides environment
    let loading := load (.object overrides) environment
    (∀ name, lookup? fields name = ((overrides.findRev? fun field => field.1 = name).map Prod.snd).or
        (lookup? (environmentFields environment) name)) ∧
      (FiniteNumbers fields → ∃ settings, loading.outcome = .ok settings) ∧
      (¬FiniteNumbers fields → loading.outcome = .error .infiniteInteger) ∧
      (∀ settings, loading.outcome = .ok settings →
        ((∃ store, Store.create (.int settings.cacheTimeoutMs) = .ok store) ↔ TimeoutInRange fields) ∧
          ((∀ files, ∃ sorted, sortByPriority files settings.priorityOrder = .ok sorted) ↔ MarkersText fields)) ∧
      ∃ settings, (load (.object []) environment).outcome = .ok settings ∧
        ∀ files, ∃ sorted, sortByPriority files settings.priorityOrder = .ok sorted := by
  intro fields loading
  have huse {fields : Fields} {settings : Settings} (hload : (ofFields fields).outcome = .ok settings) :
      ((∃ store, Store.create (.int settings.cacheTimeoutMs) = .ok store) ↔ TimeoutInRange fields) ∧
        ((∀ files, ∃ sorted, sortByPriority files settings.priorityOrder = .ok sorted) ↔ MarkersText fields) := by
    have hloaded := loadedFrom_ofFields hload
    obtain ⟨records, htimeout⟩ := hloaded.timeout_eq
    rw [exists_create_iff, timeout_lt_iff htimeout, sortByPriority_all_iff (truthy_priorityOrder hloaded),
      isText_priorityOrder_iff hloaded]
    exact ⟨Iff.rfl, Iff.rfl⟩
  have hloading : loading = ofFields fields := load_object overrides environment
  rw [hloading]
  obtain ⟨hfinite, hinfinite⟩ := outcome_ofFields fields
  obtain ⟨settings, hsettings⟩ := (outcome_ofFields _).1 (finiteNumbers_environmentFields environment)
  refine ⟨lookup?_merged overrides environment, hfinite, hinfinite, fun settings hload => huse hload, settings, ?_, ?_⟩
  · rw [load_object]
    exact hsettings
  · exact (huse hsettings).2.2 (markersText_environmentFields environment)

/-- A life of definitions that is infinite, one that is a number out of range, and a marker that is a number. -/
theorem load_fails_or_is_unusable :
    let outcome (name : String) (value : Value) := (load (.object [(.plain name, value)]) .empty).outcome
    outcome "cache_timeout" (.double (.infinite false)) = .error .infiniteInteger ∧
      (∃ settings, outcome "cache_timeout" (.int (10 ^ 400)) = .ok settings ∧
        Store.create (.int settings.cacheTimeoutMs) = .error .overflow) ∧
      ∃ settings, outcome "priority_order" (.list [.int 5]) = .ok settings ∧
        sortByPriority ["a.rb"] settings.priorityOrder = .error (.wrongType .marker (.int 5)) := by
  intro outcome
  have hlong : ¬(10 ^ 400 : Int) < minTimeout := by decide +kernel
  have hbound : Store.ttlBound ≤ 10 ^ 400 * 1000 := by decide +kernel
  let long : Settings := { default with cacheTimeout := if (10 ^ 400 : Int) < minTimeout then minTimeout else 10 ^ 400 }
  refine ⟨rfl, ⟨long, rfl, ?_⟩, { default with priorityOrder := [.int 5] }, rfl, rfl⟩
  simp only [long, if_neg hlong]
  exact Store.create_of_ttlBound_le rfl hbound

end Settings

end FactoryIndex
