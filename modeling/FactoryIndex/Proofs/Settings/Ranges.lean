import FactoryIndex.Proofs.Outline.Batch
import FactoryIndex.Proofs.Pattern.Call
import FactoryIndex.Proofs.Text.Trimmed
import FactoryIndex.Settings
import FactoryIndex.Store.Basic
import FactoryIndex.Workspace.Folder

/-!
# Loaded settings are within the limits of those who use them

Settings are read from values of any shape, and whoever uses them has limits of their own. Where a folder is listed,
blank globs are left out and backslashes are turned. A store lets definitions live for a second at least, files are read
in groups of limited size, and call sites cannot be looked for if a method is not named by letters, digits and
underscores. Loading keeps to all these limits, so that they never change or refuse what has been loaded.

Every setting is read from the field of its name, whatever else there is. So it is shown how loaded settings come from
the fields first, and then for each way of reading a value what it can give.
-/

namespace FactoryIndex

open Pattern Text

/-! ### Lines of globs -/

def globLines (globs : List RawText) : List RawText :=
  (globs.filter fun glob => !glob.trim.isEmpty).map RawText.forwardSlashes

/-- The files of a folder that lines select, each line taken as it is. -/
def Tree.listLines (tree : Tree) (folder : Path) (lines : List RawText) : Except Failure (List RawText) :=
  if lines.isEmpty then .ok []
  else
    match Glob.parseAll lines with
    | .error failure => .error failure
    | .ok globs =>
      match Tree.pathFault? folder with
      | some failure => .error failure
      | none =>
        match tree.place folder with
        | .folder path =>
          let visible := (tree.below path).filter fun file =>
            file.dropLast.all fun part => !skippedFolders.contains part
          let names := (visible.map fileName).filter fun name =>
            Glob.selects globs (globPath name.points)
          .ok (RawText.sorted names).eraseDups
        | _ => .ok []

theorem Tree.list_eq_listLines (tree : Tree) (folder : Path) (globs : List RawText) :
    tree.list folder globs = tree.listLines folder (globLines globs) := rfl

namespace Settings

/-! ### Limits -/

/-- Something other than whitespace, in which no backslash stands. -/
def IsPath (path : RawText) : Prop := (∃ point ∈ path.points, point.isBlank = false) ∧ .char '\\' ∉ path.points

def IsMethod (method : String) : Prop := method ≠ "" ∧ ∀ c ∈ method.toList, isNameChar c = true

/-- Settings within the limits of all who use them. -/
structure InRange (settings : Settings) : Prop where
  paths_ne_nil : settings.factoryPaths ≠ []
  isPath : ∀ path ∈ settings.factoryPaths, IsPath path
  le_timeout : 10 ≤ settings.cacheTimeout
  one_le_batchSize : 1 ≤ settings.batchSize
  batchSize_le : settings.batchSize ≤ 50
  methods_ne_nil : settings.factoryMethods ≠ []
  isMethod : ∀ method ∈ settings.factoryMethods, IsMethod method

variable {settings : Settings} {value : Value}

theorem globLines_eq_self {paths : List RawText} (hpaths : ∀ path ∈ paths, IsPath path) : globLines paths = paths := by
  have hkept : ∀ path ∈ paths, (!path.trim.isEmpty) = true := by
    intro path hpath
    rw [RawText.trim_isEmpty_eq_false_iff.2 (hpaths path hpath).1, Bool.not_false]
  have hturned : ∀ path ∈ paths, path.forwardSlashes = id path :=
    fun path hpath => RawText.forwardSlashes_eq_self (hpaths path hpath).2
  rw [globLines, List.filter_eq_self.2 hkept, List.map_congr_left hturned, List.map_id]

theorem InRange.list_eq (h : settings.InRange) (tree : Tree) (folder : Path) :
    tree.list folder settings.factoryPaths = tree.listLines folder settings.factoryPaths := by
  rw [Tree.list_eq_listLines, globLines_eq_self h.isPath]

theorem InRange.boundedTtl_eq (h : settings.InRange) :
    Store.boundedTtl settings.cacheTimeoutMs = settings.cacheTimeoutMs := by
  have hle := h.le_timeout
  unfold Store.boundedTtl Store.minTtl cacheTimeoutMs
  rw [if_neg (by omega)]

theorem InRange.clampBatchSize_eq (h : settings.InRange) :
    clampBatchSize (.int settings.batchSize) = .ok settings.batchSize := by
  have hclamp := Outline.clampBatch_eq settings.batchSize
  have hle := h.one_le_batchSize
  have hge := h.batchSize_le
  have heq : clampBatch settings.batchSize = settings.batchSize := by omega
  simp only [clampBatchSize, Value.toInt, heq]

theorem IsMethod.isValidName {method : String} (h : IsMethod method) : isValidName method.toList = true := by
  have hall : method.toList.takeWhile isNameChar = method.toList := List.takeWhile_eq_self_iff.2 h.2
  have hnone : method.toList.dropWhile isNameChar = [] := List.dropWhile_eq_nil_iff.2 h.2
  simp [Pattern.isValidName, hall, hnone, h.1]

theorem InRange.exists_ofMethods_eq_ok (h : settings.InRange) :
    ∃ pattern, CallPattern.ofMethods (settings.factoryMethods.map .text) = .ok pattern := by
  refine ⟨⟨_⟩, CallPattern.ofMethods_eq_ok_iff.2 ⟨?_, ?_, rfl⟩⟩
  · simpa using h.methods_ne_nil
  · intro method hmethod
    obtain ⟨name, hname, rfl⟩ := List.mem_map.1 hmethod
    exact (h.isMethod name hname).isValidName

theorem modeOrScanner_name (mode : BlockMode) : Outline.modeOrScanner (.text mode.name) = .ok (mode, []) := by
  cases mode <;> rfl

/-! ### What readers give -/

theorem exists_trim_of_mem_listItems {text : RawText} (hmem : .raw text ∈ listItems value) :
    ∃ untrimmed : RawText, text = untrimmed.trim := by
  unfold listItems at hmem
  split at hmem
  · obtain ⟨part, -, heq⟩ := List.mem_map.1 hmem
    cases heq
    exact ⟨part, rfl⟩
  · obtain ⟨item, -, heq⟩ := List.mem_map.1 hmem
    split at heq
    · next part =>
      cases heq
      exact ⟨part, rfl⟩
    · next hnot => exact absurd heq (hnot text)
  · cases hmem

theorem isPath_of_path? {item : Value} {path : RawText} (hitem : item ∈ listItems value)
    (hpath : path? item = some path) : IsPath path := by
  unfold path? at hpath
  split at hpath
  · next text =>
    split at hpath
    · cases hpath
    · next hne =>
      cases hpath
      obtain ⟨untrimmed, rfl⟩ := exists_trim_of_mem_listItems hitem
      obtain ⟨point, hpoint, hnot⟩ := RawText.trim_isEmpty_eq_false_iff.1 (Bool.eq_false_iff.2 hne)
      exact ⟨RawText.exists_not_blank_forwardSlashes ⟨point, RawText.mem_points_trim hpoint hnot, hnot⟩,
        RawText.not_mem_points_forwardSlashes _⟩
  · cases hpath

theorem isPath_defaultPaths : ∀ path ∈ defaultPaths, IsPath path := by
  intro path hpath
  rw [defaultPaths, List.mem_singleton] at hpath
  subst hpath
  exact ⟨⟨.char 's', by decide, by decide⟩, by decide⟩

theorem isPath_readPaths (value : Value) : (readPaths value).2 ≠ [] ∧ ∀ path ∈ (readPaths value).2, IsPath path := by
  unfold readPaths
  simp only
  split
  · exact ⟨List.cons_ne_nil _ _, isPath_defaultPaths⟩
  · next hne =>
    refine ⟨fun hnil => hne (List.isEmpty_iff.2 hnil), fun path hpath => ?_⟩
    obtain ⟨item, hitem, hitemPath⟩ := List.mem_filterMap.1 hpath
    exact isPath_of_path? hitem hitemPath

theorem le_readTimeout {records : List LogRecord} {timeout : Int} (hread : readTimeout value = .ok (records, timeout)) :
    minTimeout ≤ timeout := by
  unfold readTimeout at hread
  split at hread
  · cases hread
    split <;> omega
  · cases hread
  · cases hread
    decide

theorem range_readBatchSize {records : List LogRecord} {size : Nat}
    (hread : readBatchSize value = .ok (records, size)) : 1 ≤ size ∧ size ≤ 50 := by
  unfold readBatchSize at hread
  split at hread
  · next n _ =>
    cases hread
    have hclamp := Outline.clampBatch_eq n
    omega
  · cases hread
  · cases hread
    decide

theorem exists_eq_text_of_isMethodName {item : Value} (hvalid : isMethodName item = true) :
    ∃ method, item = .text method := by
  unfold isMethodName at hvalid
  split at hvalid
  · exact ⟨_, rfl⟩
  · cases hvalid

/-- The one newline that is tolerated behind a name is trimmed away. -/
theorem isMethod_of_isMethodName {method : String} (hitem : .text method ∈ listItems value)
    (hvalid : isMethodName (.text method) = true) : IsMethod method := by
  obtain ⟨word, hne, hword, heq | heq⟩ := exists_word_of_isValidName hvalid
  · rw [← heq] at hne hword
    exact ⟨by simpa using hne, hword⟩
  · obtain ⟨untrimmed, htrim⟩ := exists_trim_of_mem_listItems hitem
    have hlast : untrimmed.trim.points.getLast? = some (.char '\n') := by
      rw [← htrim, RawText.points, heq, List.map_append]
      exact List.getLast?_concat
    cases RawText.isBlank_getLast_trim hlast

theorem isMethod_defaultMethods : ∀ method ∈ defaultMethods, IsMethod method := by
  have hne : ∀ method ∈ defaultMethods, method ≠ "" := by decide +kernel
  have hall : ∀ method ∈ defaultMethods, method.toList.all isNameChar = true := by decide +kernel
  exact fun method hmethod => ⟨hne method hmethod, List.all_eq_true.1 (hall method hmethod)⟩

theorem isMethod_readMethods (value : Value) :
    (readMethods value).2 ≠ [] ∧ ∀ method ∈ (readMethods value).2, IsMethod method := by
  unfold readMethods
  simp only
  split
  · exact ⟨List.cons_ne_nil _ _, isMethod_defaultMethods⟩
  · next hvalid =>
    rw [Bool.or_eq_true, not_or, Bool.not_eq_true, Bool.not_eq_true, Bool.not_eq_false', List.all_eq_true] at hvalid
    obtain ⟨hsome, hvalid⟩ := hvalid
    constructor
    · obtain ⟨item, hitem⟩ := List.exists_mem_of_ne_nil _ (List.isEmpty_eq_false_iff.1 hsome)
      obtain ⟨method, rfl⟩ := exists_eq_text_of_isMethodName (hvalid item hitem)
      exact List.ne_nil_of_mem (List.mem_filterMap.2 ⟨_, hitem, rfl⟩)
    · intro method hmethod
      obtain ⟨item, hitem, htext⟩ := List.mem_filterMap.1 hmethod
      obtain ⟨written, rfl⟩ := exists_eq_text_of_isMethodName (hvalid item hitem)
      cases htext
      exact isMethod_of_isMethodName (List.mem_filter.1 hitem).1 (hvalid _ hitem)

/-! ### Loading -/

section Loading

variable {fields : Fields} {name : String} {α : Type}

/-- Where the parts of loaded settings come from. -/
structure LoadedFrom (settings : Settings) (fields : Fields) : Prop where
  paths_eq : settings.factoryPaths = (setting fields "factory_paths" readPaths default.factoryPaths).2
  priority_eq : settings.priorityOrder =
    (setting fields "priority_order" (fun value => ([], readPriority value)) default.priorityOrder).2
  timeout_eq : ∃ records,
    setting? fields "cache_timeout" readTimeout default.cacheTimeout = .ok (records, settings.cacheTimeout)
  batchSize_eq : ∃ records,
    setting? fields "batch_size" readBatchSize default.batchSize = .ok (records, settings.batchSize)
  methods_eq : settings.factoryMethods = (setting fields "factory_methods" readMethods default.factoryMethods).2
  debug_eq : settings.debug = (setting fields "debug" readDebug default.debug).2
  mode_eq : settings.blockMode = (setting fields "block_mode" readMode default.blockMode).2

theorem loadedFrom_ofFields (hload : (ofFields fields).outcome = .ok settings) : settings.LoadedFrom fields := by
  simp only [ofFields] at hload
  split at hload
  · cases hload
  · next timeoutRecords timeout htimeout =>
    split at hload
    · cases hload
    · next batchRecords batchSize hbatchSize =>
      cases hload
      exact ⟨rfl, rfl, ⟨timeoutRecords, htimeout⟩, ⟨batchRecords, hbatchSize⟩, rfl, rfl, rfl⟩

theorem setting_of_forall {P : α → Prop} {read : Value → List LogRecord × α} {fallback : α} (hfallback : P fallback)
    (hread : ∀ value, P (read value).2) : P (setting fields name read fallback).2 := by
  unfold setting
  split
  · exact hread _
  · exact hfallback

theorem setting?_of_forall {P : α → Prop} {read : Value → Except Failure (List LogRecord × α)} {fallback part : α}
    {records : List LogRecord} (hsetting : setting? fields name read fallback = .ok (records, part))
    (hfallback : P fallback) (hread : ∀ value records part, read value = .ok (records, part) → P part) : P part := by
  unfold setting? at hsetting
  split at hsetting
  · exact hread _ _ _ hsetting
  · cases hsetting
    exact hfallback

theorem inRange_ofFields (hload : (ofFields fields).outcome = .ok settings) : settings.InRange := by
  have hloaded := loadedFrom_ofFields hload
  obtain ⟨_, htimeout⟩ := hloaded.timeout_eq
  obtain ⟨_, hbatchSize⟩ := hloaded.batchSize_eq
  have hpaths : settings.factoryPaths ≠ [] ∧ ∀ path ∈ settings.factoryPaths, IsPath path := by
    rw [hloaded.paths_eq]
    exact setting_of_forall (P := fun paths => paths ≠ [] ∧ ∀ path ∈ paths, IsPath path)
      ⟨List.cons_ne_nil _ _, isPath_defaultPaths⟩ isPath_readPaths
  have hmethods : settings.factoryMethods ≠ [] ∧ ∀ method ∈ settings.factoryMethods, IsMethod method := by
    rw [hloaded.methods_eq]
    exact setting_of_forall (P := fun methods => methods ≠ [] ∧ ∀ method ∈ methods, IsMethod method)
      ⟨List.cons_ne_nil _ _, isMethod_defaultMethods⟩ isMethod_readMethods
  have hsize : 1 ≤ settings.batchSize ∧ settings.batchSize ≤ 50 :=
    setting?_of_forall (P := fun size => 1 ≤ size ∧ size ≤ 50) hbatchSize (by decide) fun _ _ _ => range_readBatchSize
  have hle : minTimeout ≤ settings.cacheTimeout :=
    setting?_of_forall (P := (minTimeout ≤ ·)) htimeout (by decide) fun _ _ _ => le_readTimeout
  exact ⟨hpaths.1, hpaths.2, hle, hsize.1, hsize.2, hmethods.1, hmethods.2⟩

/-- A part of settings is taken from the field of a name: without such a field it is the default, and no other field
makes a difference. -/
def TakenFrom (settings : Settings) (fields : Fields) (name : String) (part : Settings → α) : Prop :=
  (Value.lookup? fields name = none → part settings = part default) ∧
    ∀ others loaded, (ofFields others).outcome = .ok loaded →
      Value.lookup? others name = Value.lookup? fields name → part loaded = part settings

theorem takenFrom_of_setting {part : Settings → α} (read : Value → List LogRecord × α)
    (hpart : ∀ {settings fields}, LoadedFrom settings fields →
      part settings = (setting fields name read (part default)).2)
    (hload : (ofFields fields).outcome = .ok settings) : settings.TakenFrom fields name part := by
  have heq := hpart (loadedFrom_ofFields hload)
  constructor
  · intro hnone
    rw [heq, setting, hnone]
  · intro others loaded hother hsame
    rw [heq, hpart (loadedFrom_ofFields hother), setting, setting, hsame]

theorem takenFrom_of_setting? {part : Settings → α} (read : Value → Except Failure (List LogRecord × α))
    (hpart : ∀ {settings fields}, LoadedFrom settings fields →
      ∃ records, setting? fields name read (part default) = .ok (records, part settings))
    (hload : (ofFields fields).outcome = .ok settings) : settings.TakenFrom fields name part := by
  obtain ⟨records, heq⟩ := hpart (loadedFrom_ofFields hload)
  constructor
  · intro hnone
    rw [setting?, hnone] at heq
    exact (Prod.mk.inj (Except.ok.inj heq)).2.symm
  · intro others loaded hother hsame
    obtain ⟨otherRecords, hothereq⟩ := hpart (loadedFrom_ofFields hother)
    rw [setting?, hsame, ← setting?, heq] at hothereq
    exact (Prod.mk.inj (Except.ok.inj hothereq)).2.symm

/-- **Loaded settings are within all limits, and nobody changes or refuses them.** Let settings be loaded from fields
whose values are of any shape. They are in range, so listing a folder takes every glob as it is, a store takes the life
of definitions as it is, reading takes the size of groups as it is, a call pattern is made of the methods, and the block
mode is one that exists. Every part is taken from the field of its name. -/
theorem loaded_settings_in_range (hload : (ofFields fields).outcome = .ok settings) :
    settings.InRange ∧
      (∀ tree folder, Tree.list tree folder settings.factoryPaths = tree.listLines folder settings.factoryPaths) ∧
      Store.boundedTtl settings.cacheTimeoutMs = settings.cacheTimeoutMs ∧
      clampBatchSize (.int settings.batchSize) = .ok settings.batchSize ∧
      (∃ pattern, CallPattern.ofMethods (settings.factoryMethods.map .text) = .ok pattern) ∧
      settings.blockMode.name ∈ ["scanner", "regex"] ∧
      Outline.modeOrScanner (.text settings.blockMode.name) = .ok (settings.blockMode, []) ∧
      settings.TakenFrom fields "factory_paths" factoryPaths ∧
      settings.TakenFrom fields "priority_order" priorityOrder ∧
      settings.TakenFrom fields "cache_timeout" cacheTimeout ∧
      settings.TakenFrom fields "batch_size" batchSize ∧
      settings.TakenFrom fields "factory_methods" factoryMethods ∧
      settings.TakenFrom fields "debug" debug ∧
      settings.TakenFrom fields "block_mode" blockMode := by
  have hrange := inRange_ofFields hload
  refine ⟨hrange, hrange.list_eq, hrange.boundedTtl_eq, hrange.clampBatchSize_eq, hrange.exists_ofMethods_eq_ok, ?_,
    modeOrScanner_name _, takenFrom_of_setting readPaths LoadedFrom.paths_eq hload,
    takenFrom_of_setting _ LoadedFrom.priority_eq hload,
    takenFrom_of_setting? readTimeout LoadedFrom.timeout_eq hload,
    takenFrom_of_setting? readBatchSize LoadedFrom.batchSize_eq hload,
    takenFrom_of_setting readMethods LoadedFrom.methods_eq hload,
    takenFrom_of_setting readDebug LoadedFrom.debug_eq hload,
    takenFrom_of_setting readMode LoadedFrom.mode_eq hload⟩
  cases settings.blockMode <;> decide

/-- Fields of all shapes: blank and unusable paths, numbers out of range, methods with a newline behind them, and a mode
in capitals. There is no field for the order of priority. -/
theorem loaded_settings_in_range_mixed :
    let fields : Fields := [
      (.plain "factory_paths", .list [.text " spec\\a/*.rb\t", .text "\u3000", .int 3, .null]),
      (.plain "block_mode", .text " REGEX "), (.plain "cache_timeout", .bool true),
      (.plain "batch_size", .text " 1000 "), (.plain "factory_methods", .text "make\n, ,build_1"),
      (.plain "other", .null)]
    ∃ settings, (ofFields fields).outcome = .ok settings ∧ settings.factoryPaths = [.plain "spec/a/*.rb"] ∧
      settings.cacheTimeout = 10 ∧ settings.batchSize = 50 ∧ settings.factoryMethods = ["make", "build_1"] ∧
      settings.blockMode = .regex ∧ settings.InRange ∧
      Store.boundedTtl settings.cacheTimeoutMs = settings.cacheTimeoutMs ∧
      clampBatchSize (.int settings.batchSize) = .ok settings.batchSize ∧
      (∃ pattern, CallPattern.ofMethods (settings.factoryMethods.map .text) = .ok pattern) ∧
      settings.priorityOrder = default.priorityOrder := by
  intro fields
  refine ⟨⟨[.plain "spec/a/*.rb"], default.priorityOrder, 10, 50, ["make", "build_1"], false, .regex⟩, ?_⟩
  have hload : (ofFields fields).outcome = .ok _ := rfl
  obtain ⟨hrange, -, httl, hsize, hpattern, -, -, -, hpriority, -⟩ := loaded_settings_in_range hload
  exact ⟨hload, rfl, rfl, rfl, rfl, rfl, hrange, httl, hsize, hpattern, hpriority.1 (by decide +kernel)⟩

end Loading

end Settings

end FactoryIndex
