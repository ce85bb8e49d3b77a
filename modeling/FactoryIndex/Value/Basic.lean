import FactoryIndex.Number.IntegerText
import FactoryIndex.Number.Shortest
import FactoryIndex.Text.RawText

/-!
# Values

Requests, their arguments and settings arrive as JSON values whose shape is not known beforehand. The
fields of an object are kept in the order in which their names first occurred. Texts, and the names of
fields, may hold halves of surrogate pairs that stand alone; nearly all texts do not, and then they are
strings.
-/

namespace FactoryIndex

/-- A JSON value. -/
inductive Value where
  | null
  | bool (b : Bool)
  | int (n : Int)
  | double (d : Double)
  | raw (text : RawText)
  | list (items : List Value)
  | object (fields : List (RawText × Value))
  deriving Repr, Inhabited

/-- The fields of an object: names with values. -/
abbrev Fields := List (RawText × Value)

namespace Value

/-- A text that is a string. -/
@[match_pattern]
abbrev text (s : String) : Value := .raw (.plain s)

def lookup? (fields : Fields) (name : RawText) : Option Value :=
  (fields.find? fun field => field.1 = name).map Prod.snd

def field? : Value → RawText → Option Value
  | .object fields, name => lookup? fields name
  | _, _ => none

def text? : Value → Option String
  | .raw t => t.string?
  | _ => none

/-- Whether a value counts as true: all do but nothing, false, zero and what is empty. -/
def truthy : Value → Bool
  | .null => false
  | .bool b => b
  | .int n => n != 0
  | .double d => !d.isZero
  | .raw t => !t.isEmpty
  | .list items => !items.isEmpty
  | .object fields => !fields.isEmpty

/-- The elements of a value that can be walked through: the items of a list, the code points of a text
and the names of an object. -/
def elements? : Value → Option (List Value)
  | .list items => some items
  | .raw t => some (t.points.map fun point => .raw (.ofPoints [point]))
  | .object fields => some (fields.map fun field => .raw field.1)
  | _ => none

/-- The name by which messages tell what kind of value this is. -/
def typeName : Value → String
  | .null => "NoneType"
  | .bool _ => "bool"
  | .int _ => "int"
  | .double _ => "float"
  | .raw _ => "str"
  | .list _ => "list"
  | .object _ => "dict"

/-! ### Whole numbers -/

/-- Why a value cannot be taken for a whole number. -/
inductive NumberFault where
  /-- A value of a kind that never stands for a number. -/
  | wrongType
  /-- A text that is not written as an integer. -/
  | notAnInteger (text : RawText)
  | tooManyDigits (count : Nat)
  | nan
  | infinite
  deriving Repr, DecidableEq

/-- Why a text is no integer. -/
def NumberFault.ofText (text : RawText) : NumberFault :=
  match excessDigits? text.shown.toList with
  | some count => tooManyDigits count
  | none => notAnInteger text

/-- The whole number a value stands for: a truth value counts as zero or one, a fraction is dropped. -/
def toInt : Value → Except NumberFault Int
  | .int n => .ok n
  | .bool b => .ok (if b then 1 else 0)
  | .double .nan => .error .nan
  | .double (.infinite _) => .error .infinite
  | .double (.finite negative significand exponent) =>
    .ok (Double.truncate negative significand exponent)
  | .raw t =>
    match t.string?.bind fun s => readInteger? s.toList with
    | some n => .ok n
    | none => .error (.ofText t)
  | _ => .error .wrongType

/-! ### Equality

Numbers are compared by what they stand for, a truth value being zero or one, and objects without
regard to the order of their fields. -/

/-- The number a value stands for when it is compared with another one. -/
def number? : Value → Option (Int ⊕ Double)
  | .bool b => some (.inl (if b then 1 else 0))
  | .int n => some (.inl n)
  | .double d => some (.inr d)
  | _ => none

def sameNumber : Int ⊕ Double → Int ⊕ Double → Bool
  | .inl a, .inl b => a == b
  | .inl a, .inr b => b.equalsInt a
  | .inr a, .inl b => a.equalsInt b
  | .inr a, .inr b => a.sameValue b

mutual

def agrees : Value → Value → Bool
  | .null, .null => true
  | .raw a, .raw b => a == b
  | .list as, .list bs => as.length == bs.length && agreeItems as bs
  | .object as, .object bs => as.length == bs.length && agreeFields as bs
  | a, b =>
    match a.number?, b.number? with
    | some m, some n => sameNumber m n
    | _, _ => false

def agreeItems : List Value → List Value → Bool
  | [], _ => true
  | _, [] => true
  | a :: as, b :: bs => agrees a b && agreeItems as bs

/-- Whether every field has an equal one of the same name. -/
def agreeFields : Fields → Fields → Bool
  | [], _ => true
  | (name, a) :: as, bs =>
    (match lookup? bs name with
      | some b => agrees a b
      | none => false) && agreeFields as bs

end

/-! ### Text -/

mutual

/-- The text a message shows for a value, with texts in quotes. -/
def literal : Value → String
  | .null => "None"
  | .bool b => if b then "True" else "False"
  | .int n => toString n
  | .double d => d.toText
  | .raw t => t.quoted
  | .list items => "[" ++ literalItems items ++ "]"
  | .object fields => "\x7b" ++ literalFields fields ++ "\x7d"

def literalItems : List Value → String
  | [] => ""
  | [item] => item.literal
  | item :: rest => item.literal ++ ", " ++ literalItems rest

def literalFields : Fields → String
  | [] => ""
  | [(name, value)] => name.quoted ++ ": " ++ value.literal
  | (name, value) :: rest => name.quoted ++ ": " ++ value.literal ++ ", " ++ literalFields rest

end

/-- The text a value is written as inside a sentence: a text stands for itself. -/
def shown : Value → RawText
  | .raw t => t
  | value => value.literal

def texts (names : List String) : Value := .list (names.map .text)

end Value

end FactoryIndex
