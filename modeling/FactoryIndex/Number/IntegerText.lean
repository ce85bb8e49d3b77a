import FactoryIndex.Text.Split

/-!
# Integers written as text

An integer is written as decimal digits of any script, with a sign before them if one is wanted, single
underscores between digits if they help the eye, and blanks around the whole. More digits than
`digitLimit` are refused.
-/

namespace FactoryIndex

/-- The greatest number of digits an integer may be written with. -/
def digitLimit : Nat := 4300

/-- The values of digits that may be grouped by single underscores; `started` tells that a digit has
just been read, so that an underscore may follow. -/
def groupedDigits? : (started : Bool) → List Char → Option (List Nat)
  | started, [] => if started then some [] else none
  | started, c :: rest =>
    match Text.decimalValue? c with
    | some value => (groupedDigits? true rest).map (value :: ·)
    | none => if c = '_' ∧ started then groupedDigits? false rest else none

def ofDigits (digits : List Nat) : Nat := digits.foldl (fun n digit => 10 * n + digit) 0

/-- The natural number written with the given digits, unless there are too many of them. -/
def readDigits? (text : List Char) : Option Nat :=
  match groupedDigits? false text with
  | some digits => if digits.length ≤ digitLimit then some (ofDigits digits) else none
  | none => none

/-- The blanks that may stand around an integer: whitespace, except for the four separators among the
control characters. -/
def isMargin (c : Char) : Bool := Text.isBlank c && !(0x1c ≤ c.toNat && c.toNat ≤ 0x1f)

def withoutMargins (text : List Char) : List Char :=
  ((text.dropWhile isMargin).reverse.dropWhile isMargin).reverse

/-- How many digits there are until the first other character; nothing if they are not grouped as they have to be. -/
def leadingDigits? : (started : Bool) → List Char → Option Nat
  | started, [] => if started then some 0 else none
  | started, c :: rest =>
    if (Text.decimalValue? c).isSome then (leadingDigits? true rest).map (· + 1)
    else if c = '_' ∧ started then leadingDigits? false rest
    else if c ≠ '_' ∧ started then some 0
    else none

/-- The digits of an integer that is written with too many of them. What follows the digits does not matter. -/
def excessDigits? (text : List Char) : Option Nat :=
  let unsigned := match withoutMargins text with
    | '-' :: rest => rest
    | '+' :: rest => rest
    | rest => rest
  (leadingDigits? false unsigned).filter (digitLimit < ·)

def readInteger? (text : List Char) : Option Int :=
  match withoutMargins text with
  | '-' :: rest => (readDigits? rest).map fun n => -(n : Int)
  | '+' :: rest => (readDigits? rest).map fun n => (n : Int)
  | rest => (readDigits? rest).map fun n => (n : Int)

end FactoryIndex
