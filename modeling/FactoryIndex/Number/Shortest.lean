import FactoryIndex.Number.Double

/-!
# The shortest decimal of a number

A double-precision number is written with the fewest significant digits that read back as the same
number, and among those with the digits nearest to it. For each count of digits the two neighbours of
the number on that decimal grid are tried; the first grid on which one of them reads back is the one
used. Seventeen digits always suffice.
-/

namespace FactoryIndex

namespace Double

/-- How many decimal digits stand before the point of a positive quotient; zero or negative if the
quotient is below one tenth. -/
def decimalPoint (numerator denominator : Nat) : Int :=
  if denominator ≤ numerator then ((Nat.toDigits 10 (numerator / denominator)).length : Int)
  else
    let inverse := (denominator + numerator - 1) / numerator
    1 - ((Nat.toDigits 10 (inverse - 1)).length : Int)

/-- The decimal `digits * 10 ^ exponent` with `count` digits that reads back as the positive number
`target` and is nearest to the quotient, if there is one. -/
def onGrid? (target : Double) (numerator denominator : Nat) (exponent : Int) : Option Nat :=
  let n := numerator * Nat.pow 10 (-exponent).toNat
  let d := denominator * Nat.pow 10 exponent.toNat
  let below := n / d
  let readsBack (digits : Nat) : Bool := ofDecimal false digits exponent == target
  let nearest := roundQuotient n d
  let other := if nearest = below then below + 1 else below
  if readsBack nearest then some nearest else if readsBack other then some other else none

/-- The shortest digits of a positive number and their exponent, trying `count` digits first and at
most `tries` further counts. -/
def shortestFrom (target : Double) (numerator denominator : Nat) (point : Int) :
    (tries count : Nat) → Nat × Int
  | 0, count =>
    ((numerator * Nat.pow 10 ((count : Int) - point).toNat) /
      (denominator * Nat.pow 10 (point - count).toNat), point - count)
  | tries + 1, count =>
    match onGrid? target numerator denominator (point - count) with
    | some digits => (digits, point - count)
    | none => shortestFrom target numerator denominator point tries (count + 1)

/-- Digits without the zeros at their end. -/
def significantDigits (digits : Nat) : List Char :=
  ((Nat.toDigits 10 digits).reverse.dropWhile (· == '0')).reverse

/-- The digits of a positive number, and how many of them stand before the point. -/
def shortestDigits (significand : Nat) (exponent : Int) : List Char × Int :=
  let (numerator, denominator) :=
    (significand * Nat.pow 2 exponent.toNat, Nat.pow 2 (-exponent).toNat)
  let (digits, power) :=
    shortestFrom (.finite false significand exponent) numerator denominator
      (decimalPoint numerator denominator) 17 1
  (significantDigits digits, ((Nat.toDigits 10 digits).length : Int) + power)

/-! ### Layout -/

/-- How the digits of a number are laid out. -/
structure Layout where
  /-- The least count of digits before the point that is written without an exponent. -/
  leastPoint : Int
  /-- The greatest such count. -/
  greatestPoint : Int
  /-- The least number of digits of an exponent. -/
  exponentWidth : Nat

/-- Numbers are written positionally from a ten thousandth up to sixteen digits before the point, and
else with an exponent of at least two digits and its sign. -/
def plainLayout : Layout := ⟨-3, 16, 2⟩

/-- A whole number with zeros in front up to the given width. -/
def padded (width : Nat) (n : Nat) : List Char :=
  let digits := Nat.toDigits 10 n
  List.replicate (width - digits.length) '0' ++ digits

def Layout.write (layout : Layout) (digits : List Char) (point : Int) : List Char :=
  if layout.leastPoint ≤ point ∧ point ≤ layout.greatestPoint then
    if point ≤ 0 then '0' :: '.' :: List.replicate (-point).toNat '0' ++ digits
    else
      let whole := digits.take point.toNat
      let fraction := digits.drop point.toNat
      whole ++ List.replicate (point.toNat - whole.length) '0' ++
        '.' :: (if fraction.isEmpty then ['0'] else fraction)
  else
    let fraction := digits.drop 1
    let power := point - 1
    digits.take 1 ++ (if fraction.isEmpty then [] else '.' :: fraction) ++
      'e' :: (if power < 0 then '-' else '+') :: padded layout.exponentWidth power.natAbs

def toText : Double → String
  | .nan => "nan"
  | .infinite negative => if negative then "-inf" else "inf"
  | .finite negative significand exponent =>
    let digits :=
      if significand = 0 then ['0', '.', '0']
      else
        let (digits, point) := shortestDigits significand exponent
        plainLayout.write digits point
    String.ofList (if negative then '-' :: digits else digits)

end Double

end FactoryIndex
