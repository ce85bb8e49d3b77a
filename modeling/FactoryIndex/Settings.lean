import FactoryIndex.Outline.Parse
import FactoryIndex.Pattern.Call
import FactoryIndex.Report

/-!
# Settings

Settings come from environment variables whose names start with `environmentStart`, and from the
arguments of a request, which take precedence. They arrive as values of any shape. A value that cannot
be used is logged and replaced by the default, so that loading fails only on an infinite number. Each
setting depends on nothing but the value under its own name.
-/

namespace FactoryIndex

open Text

structure Settings where
  /-- Globs of the files in which definitions are looked for. -/
  factoryPaths : List RawText
  /-- Parts of paths; a file whose path holds an earlier one wins over other files. -/
  priorityOrder : List Value
  /-- How long definitions live, in seconds. -/
  cacheTimeout : Int
  /-- How many files are read at the same time. -/
  batchSize : Nat
  /-- The methods whose calls refer to factories. -/
  factoryMethods : List String
  debug : Bool
  blockMode : BlockMode
  deriving Repr

namespace Settings

/-! ### Defaults and bounds -/

def defaultPaths : List RawText := ["spec/factories/**/*.rb"]

def defaultPriority : List String := ["spec/factories", "test/factories", "factories"]

/-- The default life of definitions, in seconds. -/
def defaultTimeout : Int := 60

/-- The shortest life of definitions, in seconds. -/
def minTimeout : Int := 10

def defaultBatchSize : Nat := 10

/-- The greatest number of files read at the same time. -/
def maxBatchSize : Nat := 50

def default : Settings where
  factoryPaths := defaultPaths
  priorityOrder := defaultPriority.map .text
  cacheTimeout := defaultTimeout
  batchSize := defaultBatchSize
  factoryMethods := Pattern.defaultMethods
  debug := false
  blockMode := .scanner

instance : Inhabited Settings := ⟨default⟩

def cacheTimeoutMs (settings : Settings) : Int := settings.cacheTimeout * 1000

/-- A number of files that lies between one and the greatest one. -/
def clampBatch (n : Int) : Nat :=
  if n < 1 then 1 else if (maxBatchSize : Int) < n then maxBatchSize else n.toNat

/-- The number of files that a value asks for; nothing asks for the default. -/
def clampBatchSize : Value → Except Failure Nat
  | .null => .ok defaultBatchSize
  | value =>
    match value.toInt with
    | .ok n => .ok (clampBatch n)
    | .error fault => .error (fault.failure value)

/-! ### Reading single settings -/

/-- The record of a value that is not used, and of what is used instead. -/
def invalidValue (key : String) (value fallback : Value) : LogRecord :=
  ⟨.warning, .settings, "config.invalid_value", [
    ("key", .text key), ("value", .text value.literal), ("fallback", .text fallback.literal)]⟩

/-- The items of a setting: those of a list, or the parts of a text between commas. Texts lose the
blanks around them; any other value has no items. -/
def listItems : Value → List Value
  | .raw t => (t.split ',').map fun part => .raw part.trim
  | .list items => items.map fun
    | .raw t => .raw t.trim
    | item => item
  | _ => []

def path? : Value → Option RawText
  | .raw t => if t.isEmpty then none else some t.forwardSlashes
  | _ => none

def readPaths (value : Value) : List LogRecord × List RawText :=
  let entries := listItems value
  let paths := entries.filterMap path?
  let dropped := (entries.filter fun item => (path? item).isNone).map fun item =>
    invalidValue "factory_paths" item .null
  if paths.isEmpty then
    (dropped ++ [invalidValue "factory_paths" value (.list (defaultPaths.map .raw))], defaultPaths)
  else (dropped, paths)

/-- The order of priority: every item that is not empty. -/
def readPriority (value : Value) : List Value := (listItems value).filter Value.truthy

def readTimeout (value : Value) : Except Failure (List LogRecord × Int) :=
  match value.toInt with
  | .ok seconds => .ok ([], if seconds < minTimeout then minTimeout else seconds)
  | .error .infinite => .error .infiniteInteger
  | .error _ => .ok ([invalidValue "cache_timeout" value (.int defaultTimeout)], defaultTimeout)

def readBatchSize (value : Value) : Except Failure (List LogRecord × Nat) :=
  match value.toInt with
  | .ok n => .ok ([], clampBatch n)
  | .error .infinite => .error .infiniteInteger
  | .error _ =>
    .ok ([invalidValue "batch_size" value (.int defaultBatchSize)], defaultBatchSize)

/-- The methods whose calls refer to factories: used only if there are any and all are valid. -/
def readMethods (value : Value) : List LogRecord × List String :=
  let methods := (listItems value).filter Value.truthy
  if methods.isEmpty || !methods.all Pattern.isMethodName then
    ([invalidValue "factory_methods" value (.texts Pattern.defaultMethods)], Pattern.defaultMethods)
  else ([], methods.filterMap Value.text?)

/-- The text of a value in lower case, without blanks around it. -/
def folded (value : Value) : String := String.ofList (value.shown.trim.shown.toList.map foldCase)

def readDebug (value : Value) : List LogRecord × Bool :=
  match value with
  | .bool b => ([], b)
  | _ =>
    let text := folded value
    if ["1", "true", "yes", "on"].contains text then ([], true)
    else if ["0", "false", "no", "off", ""].contains text then ([], false)
    else ([invalidValue "debug" value (.bool false)], false)

def readMode (value : Value) : List LogRecord × BlockMode :=
  match BlockMode.ofName? (folded value) with
  | some mode => ([], mode)
  | none => ([invalidValue "block_mode" value (.text BlockMode.scanner.name)], .scanner)

/-! ### Loading -/

/-- What loading gives: the records of values that were not used, and the settings. -/
structure Loading where
  records : List LogRecord
  outcome : Except Failure Settings

/-- A setting that cannot fail: its default if its name is missing. -/
def setting {α : Type} (fields : Fields) (name : String)
    (read : Value → List LogRecord × α) (fallback : α) : List LogRecord × α :=
  match Value.lookup? fields name with
  | some value => read value
  | none => ([], fallback)

/-- A setting that fails on an infinite number. -/
def setting? {α : Type} (fields : Fields) (name : String)
    (read : Value → Except Failure (List LogRecord × α)) (fallback : α) :
    Except Failure (List LogRecord × α) :=
  match Value.lookup? fields name with
  | some value => read value
  | none => .ok ([], fallback)

def ofFields (fields : Fields) : Loading :=
  let (pathRecords, paths) := setting fields "factory_paths" readPaths defaultPaths
  let (_, priority) := setting fields "priority_order" (fun value => ([], readPriority value))
    (defaultPriority.map .text)
  match setting? fields "cache_timeout" readTimeout defaultTimeout with
  | .error failure => ⟨pathRecords, .error failure⟩
  | .ok (timeoutRecords, timeout) =>
    match setting? fields "batch_size" readBatchSize defaultBatchSize with
    | .error failure => ⟨pathRecords ++ timeoutRecords, .error failure⟩
    | .ok (batchRecords, batchSize) =>
      let (methodRecords, methods) := setting fields "factory_methods" readMethods Pattern.defaultMethods
      let (debugRecords, debug) := setting fields "debug" readDebug false
      let (modeRecords, mode) := setting fields "block_mode" readMode .scanner
      ⟨pathRecords ++ timeoutRecords ++ batchRecords ++ methodRecords ++ debugRecords ++ modeRecords,
        .ok ⟨paths, priority, timeout, batchSize, methods, debug, mode⟩⟩

def names : List String := [
  "factory_paths", "priority_order", "cache_timeout", "batch_size", "factory_methods", "debug",
  "block_mode"]

/-- Whether a value that is not an object mentions a name: a list as an item, a text as a part. -/
def mentions (value : Value) (name : String) : Bool :=
  match value with
  | .list items => items.any fun item => item.text? == some name
  | .raw t => t.mentions name
  | _ => false

/-- The settings in a value. A list or a text that mentions no setting gives the defaults. -/
def ofValue : Value → Loading
  | .object fields => ofFields fields
  | .list items =>
    ⟨[], if names.any (mentions (.list items)) then .error (.wrongType .fields (.list items)) else .ok default⟩
  | .raw t => ⟨[], if names.any (mentions (.raw t)) then .error (.wrongType .fields (.raw t)) else .ok default⟩
  | value => ⟨[], .error (.wrongType .container value)⟩

def environmentStart : String := "FACTORYJUMP_"

/-- The settings among environment variables. Of two variables with the same name up to case the later
one counts. -/
def environmentFields (environment : OrderedMap RawText RawText) : Fields :=
  environment.entries.foldl
    (fun fields (name, value) =>
      match after? (RawText.plain environmentStart).points name.points with
      | some rest => OrderedMap.put (.ofPoints (rest.map Point.foldCase)) (.raw value) fields
      | none => fields)
    []

/-- The name and the value of an item of a list of pairs. -/
def pair? (item : Value) (index : Nat) : Except Failure (Value × Value) :=
  match item.elements? with
  | some [.list items, _] => .error (.wrongType .key (.list items))
  | some [.object fields, _] => .error (.wrongType .key (.object fields))
  | some [name, value] => .ok (name, value)
  | some elements => .error (.wrongLength index elements.length)
  | none => .error (.notAPair index)

/-- Puts the fields of a value over others: those of an object, or the pairs of a list. -/
def overlay (fields : Fields) (value : Value) : Except Failure Fields :=
  if value.truthy then
    match value with
    | .object others => .ok (others.foldl (fun fields field => OrderedMap.put field.1 field.2 fields) fields)
    | _ =>
      match value.elements? with
      | none => .error (.wrongType .elements value)
      | some items =>
        items.zipIdx.foldlM
          (fun fields (item, index) =>
            (pair? item index).map fun (name, value) =>
              match name with
              | .raw name => OrderedMap.put name value fields
              | _ => fields)
          fields
  else .ok fields

/-- The settings of an environment with those of a value over them. -/
def load (overrides : Value) (environment : OrderedMap RawText RawText) : Loading :=
  match overlay (environmentFields environment) overrides with
  | .ok fields => ofFields fields
  | .error failure => ⟨[], .error failure⟩

def agrees (a b : Settings) : Bool :=
  a.factoryPaths == b.factoryPaths && (Value.list a.priorityOrder).agrees (.list b.priorityOrder) &&
    a.cacheTimeout == b.cacheTimeout && a.batchSize == b.batchSize &&
    a.factoryMethods == b.factoryMethods && a.debug == b.debug && a.blockMode == b.blockMode

end Settings

end FactoryIndex
