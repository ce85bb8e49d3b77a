import FactoryIndex.OrderedMap
import FactoryIndex.Value.Basic

/-!
# Reading JSON

A reader for one JSON value. Numbers with a point or an exponent are double-precision numbers, all
others integers of any size up to `digitLimit` digits; `NaN`, `Infinity` and `-Infinity` are numbers too.
Where an object names a field twice the last value counts. Raw control characters inside strings,
trailing commas, and text behind the value are refused. Lists and objects may lie inside each other up to a
depth of `nestingLimit`; the reader gives up where one more is opened, whatever follows.

Two nested steps of the reader take at least one character, so a text of `n` characters is read within
`2 * n + 1` nested steps; that number is the fuel handed to it, and more would change nothing
(`readValue_of_fuel`).
-/

namespace FactoryIndex.Value

/-- What is wrong with a text that is not JSON. -/
inductive Flaw where
  | noValue
  | moreBehind
  | byteOrderMark
  | openString
  | controlCharacter
  | escape
  | unicodeEscape
  | noName
  | noColon
  | noComma
  deriving Repr, DecidableEq

/-- Why a text is refused. What is wrong with it is noticed when so many characters are left. -/
inductive ReadFault where
  | malformed (flaw : Flaw) (left : Nat)
  | tooManyDigits (count : Nat)
  | tooDeep (object : Bool)
  deriving Repr, DecidableEq

namespace Flaw

def description : Flaw → String
  | noValue => "Expecting value"
  | moreBehind => "Extra data"
  | byteOrderMark => "Unexpected UTF-8 BOM (decode using utf-8-sig)"
  | openString => "Unterminated string starting at"
  | controlCharacter => "Invalid control character at"
  | escape => "Invalid \\escape"
  | unicodeEscape => "Invalid \\uXXXX escape"
  | noName => "Expecting property name enclosed in double quotes"
  | noColon => "Expecting ':' delimiter"
  | noComma => "Expecting ',' delimiter"

def message (flaw : Flaw) (text : List Char) (left : Nat) : String :=
  let place := text.length - left
  let before := Text.split '\n' (text.take place)
  flaw.description ++ ": line " ++ toString before.length ++ " column " ++
    toString ((before.getLast?.getD []).length + 1) ++ " (char " ++ toString place ++ ")"

end Flaw

/-- How deep lists and objects may lie inside each other. -/
def nestingLimit : Nat := 990

/-- What a step of the reader gives: a result and the text behind it. -/
abbrev Reading (α : Type) := Except ReadFault (α × List Char)

/-- Whitespace between the parts of a value. -/
def isSpacing (c : Char) : Bool := c == ' ' || c == '\t' || c == '\n' || c == '\r'

def skipSpacing (text : List Char) : List Char := text.dropWhile isSpacing

def hexDigit? (c : Char) : Option Nat :=
  if c.isDigit then some (c.toNat - 48)
  else if 'a' ≤ c ∧ c ≤ 'f' then some (c.toNat - 87)
  else if 'A' ≤ c ∧ c ≤ 'F' then some (c.toNat - 55)
  else none

def hexUnit? (a b c d : Char) : Option Nat :=
  match hexDigit? a, hexDigit? b, hexDigit? c, hexDigit? d with
  | some a, some b, some c, some d => some (4096 * a + 256 * b + 16 * c + d)
  | _, _, _, _ => none

def isHighSurrogate (unit : Nat) : Bool := 0xd800 ≤ unit && unit < 0xdc00

def isLowSurrogate (unit : Nat) : Bool := 0xdc00 ≤ unit && unit < 0xe000

/-- The code point of a code unit that stands alone. -/
def unitPoint (unit : Nat) : Point :=
  match Half.ofCode? unit with
  | some half => .half half
  | none => .char (Char.ofNat unit)

def pairChar (high low : Nat) : Char := Char.ofNat (0x10000 + 1024 * (high - 0xd800) + (low - 0xdc00))

/-- The character that a letter behind a backslash stands for. -/
def escaped? (c : Char) : Option Char :=
  if c = '\x22' ∨ c = '\\' ∨ c = '/' then some c
  else if c = 'b' then some '\x08'
  else if c = 'f' then some '\x0c'
  else if c = 'n' then some '\n'
  else if c = 'r' then some '\r'
  else if c = 't' then some '\t'
  else none

/-- One more code point in front of what a step has read. -/
def prepend (point : Point) (reading : Reading (List Point)) : Reading (List Point) :=
  reading.map fun (points, rest) => (point :: points, rest)

/-- A code unit in front of code points: the halves of a pair become one character. -/
def joinUnit (unit : Nat) : List Point → List Point
  | .half low :: rest =>
    if isHighSurrogate unit && isLowSurrogate low.code then .char (pairChar unit low.code) :: rest
    else unitPoint unit :: .half low :: rest
  | points => unitPoint unit :: points

/-- The rest of a string, up to its closing quote; `whole` characters were left at its opening quote. A code unit
that is written by its number needs a character behind it. -/
def readString (whole : Nat) : List Char → Reading (List Point)
  | [] | ['\\'] => .error (.malformed .openString whole)
  | '\\' :: 'u' :: a :: b :: c :: d :: e :: rest =>
    match hexUnit? a b c d with
    | none => .error (.malformed .unicodeEscape (rest.length + 6))
    | some unit => (readString whole (e :: rest)).map fun (points, rest) => (joinUnit unit points, rest)
  | '\\' :: 'u' :: rest => .error (.malformed .unicodeEscape (rest.length + 1))
  | '\\' :: c :: rest =>
    match escaped? c with
    | some c => prepend c (readString whole rest)
    | none => .error (.malformed .escape (rest.length + 2))
  | c :: rest =>
    if c = '\x22' then .ok ([], rest)
    else if c.toNat < 0x20 then .error (.malformed .controlCharacter (rest.length + 1))
    else prepend c (readString whole rest)

def digitsToNat (digits : List Char) : Nat := digits.foldl (fun n c => 10 * n + (c.toNat - 48)) 0

/-- The digits of a fraction behind its point, if the text goes on with one. -/
def readFraction : List Char → Option (List Char × List Char)
  | '.' :: rest =>
    let digits := rest.takeWhile Char.isDigit
    if digits.isEmpty then none else some (digits, rest.dropWhile Char.isDigit)
  | _ => none

/-- The exponent behind its mark, if the text goes on with one. -/
def readExponent : List Char → Option (Int × List Char)
  | mark :: rest =>
    if mark = 'e' ∨ mark = 'E' then
      let (negative, rest) := match rest with
        | '-' :: rest => (true, rest)
        | '+' :: rest => (false, rest)
        | rest => (false, rest)
      let digits := rest.takeWhile Char.isDigit
      if digits.isEmpty then none
      else
        let power : Int := digitsToNat digits
        some (if negative then -power else power, rest.dropWhile Char.isDigit)
    else none
  | [] => none

/-- The digits before the point: a single zero, or digits that do not start with one. -/
def wholeDigits (text : List Char) : List Char :=
  match text with
  | '0' :: _ => ['0']
  | _ => text.takeWhile Char.isDigit

/-- A number without its sign. -/
def readNumber (negative : Bool) (text : List Char) : Reading Value :=
  let whole := wholeDigits text
  let rest := text.drop whole.length
  if whole.isEmpty then .error (.malformed .noValue (text.length + if negative then 1 else 0))
  else
    match readFraction rest, readExponent ((readFraction rest).elim rest Prod.snd) with
    | none, none =>
      if whole.length ≤ digitLimit then
        let n : Int := digitsToNat whole
        .ok (.int (if negative then -n else n), rest)
      else .error (.tooManyDigits whole.length)
    | some (fraction, rest), none =>
      .ok (.double (.ofDecimal negative (digitsToNat (whole ++ fraction)) (-(fraction.length : Int))), rest)
    | none, some (power, rest) => .ok (.double (.ofDecimal negative (digitsToNat whole) power), rest)
    | some (fraction, _), some (power, rest) =>
      .ok (.double (.ofDecimal negative (digitsToNat (whole ++ fraction)) (power - fraction.length)), rest)

def wordValues : List (List Char × Value) := [
  (['n', 'u', 'l', 'l'], .null), (['t', 'r', 'u', 'e'], .bool true),
  (['f', 'a', 'l', 's', 'e'], .bool false), (['N', 'a', 'N'], .double .nan),
  (['I', 'n', 'f', 'i', 'n', 'i', 't', 'y'], .double (.infinite false)),
  (['-', 'I', 'n', 'f', 'i', 'n', 'i', 't', 'y'], .double (.infinite true))
]

def readWord? (text : List Char) : Option (Value × List Char) :=
  wordValues.findSome? fun (word, value) => (Text.after? word text).map fun rest => (value, rest)

mutual

/-- A value at the very start of the text, in which lists and objects may lie `room` deep. -/
def readValue : (fuel room : Nat) → List Char → Reading Value
  | 0, _, input => .error (.malformed .noValue input.length)
  | fuel + 1, room, input =>
    match input with
    | [] => .error (.malformed .noValue 0)
    | c :: rest =>
      if c = '\x22' then (readString input.length rest).map fun (points, rest) => (.raw (.ofPoints points), rest)
      else if c = '[' then
        match room, skipSpacing rest with
        | 0, _ => .error (.tooDeep false)
        | _, ']' :: rest => .ok (.list [], rest)
        | room + 1, rest => (readItems fuel room rest).map fun (items, rest) => (.list items, rest)
      else if c = '\x7b' then
        match room, skipSpacing rest with
        | 0, _ => .error (.tooDeep true)
        | _, '\x7d' :: rest => .ok (.object [], rest)
        | room + 1, rest => readFields fuel room [] rest
      else
        match readWord? input with
        | some result => .ok result
        | none => if c = '-' then readNumber true rest else readNumber false input

/-- The items of a list, up to its closing bracket. -/
def readItems : (fuel room : Nat) → List Char → Reading (List Value)
  | 0, _, input => .error (.malformed .noValue input.length)
  | fuel + 1, room, input =>
    match readValue fuel room input with
    | .error fault => .error fault
    | .ok (item, rest) =>
      match skipSpacing rest with
      | ',' :: rest =>
        (readItems fuel room (skipSpacing rest)).map fun (items, rest) => (item :: items, rest)
      | ']' :: rest => .ok ([item], rest)
      | rest => .error (.malformed .noComma rest.length)

/-- The fields of an object, up to its closing brace, added to those already read. -/
def readFields : (fuel room : Nat) → Fields → List Char → Reading Value
  | 0, _, _, input => .error (.malformed .noName input.length)
  | fuel + 1, room, fields, input =>
    match input with
    | '\x22' :: rest =>
      match readString input.length rest with
      | .error fault => .error fault
      | .ok (name, rest) =>
        match skipSpacing rest with
        | ':' :: rest =>
          match readValue fuel room (skipSpacing rest) with
          | .error fault => .error fault
          | .ok (value, rest) =>
            let fields := OrderedMap.put (RawText.ofPoints name) value fields
            match skipSpacing rest with
            | ',' :: rest => readFields fuel room fields (skipSpacing rest)
            | '\x7d' :: rest => .ok (.object fields, rest)
            | rest => .error (.malformed .noComma rest.length)
        | rest => .error (.malformed .noColon rest.length)
    | _ => .error (.malformed .noName input.length)

end

def read (text : List Char) : Except ReadFault Value :=
  if text.head? = some '\ufeff' then .error (.malformed .byteOrderMark text.length)
  else
    match readValue (2 * text.length + 1) nestingLimit (skipSpacing text) with
    | .error fault => .error fault
    | .ok (value, rest) =>
      let behind := skipSpacing rest
      if behind.isEmpty then .ok value else .error (.malformed .moreBehind behind.length)

end FactoryIndex.Value
