/-!
# Double-precision numbers

Numbers with a fraction are rounded to a significand of 53 bits and an exponent of at least `-1074`, the
nearest such number being taken and a tie going to the even significand; what is too large becomes
infinite. Everything here is exact arithmetic on natural numbers, so that what a number is read as, and
how it is written, follow from its digits alone.
-/

namespace FactoryIndex

/-- A double-precision number. A finite one is `significand * 2 ^ exponent`, with its sign. -/
inductive Double where
  | nan
  | infinite (negative : Bool)
  | finite (negative : Bool) (significand : Nat) (exponent : Int)
  deriving Repr, DecidableEq

/-- The natural number nearest to a quotient; a tie goes to the even one. -/
def roundQuotient (numerator denominator : Nat) : Nat :=
  let quotient := numerator / denominator
  let remainder := numerator % denominator
  if 2 * remainder < denominator then quotient
  else if denominator < 2 * remainder then quotient + 1
  else if quotient % 2 = 0 then quotient else quotient + 1

namespace Double

def minExponent : Int := -1074

def maxExponent : Int := 971

/-- Every significand is below this number. -/
def significandBound : Nat := Nat.pow 2 53

/-- The larger of two integers. -/
private def atLeast (least value : Int) : Int := if value < least then least else value

/-- The quotient in units of `2 ^ exponent`, as a numerator and a denominator. -/
def inUnits (numerator denominator : Nat) (exponent : Int) : Nat × Nat :=
  (numerator * Nat.pow 2 (-exponent).toNat, denominator * Nat.pow 2 exponent.toNat)

/-- The number nearest to a quotient of natural numbers, with the given sign. -/
def ofQuotient (negative : Bool) (numerator denominator : Nat) : Double :=
  if numerator = 0 then .finite negative 0 minExponent
  else
    let estimate := atLeast minExponent ((numerator.log2 : Int) - (denominator.log2 : Int) - 53)
    let (n, d) := inUnits numerator denominator estimate
    let exponent := if significandBound ≤ n / d then estimate + 1 else estimate
    let (n, d) := inUnits numerator denominator exponent
    let rounded := roundQuotient n d
    let (significand, exponent) :=
      if rounded = significandBound then (rounded / 2, exponent + 1) else (rounded, exponent)
    if maxExponent < exponent then .infinite negative else .finite negative significand exponent

/-- The number nearest to `digits * 10 ^ exponent`. Exponents that lie far outside the range of finite
numbers are settled without forming the power. -/
def ofDecimal (negative : Bool) (digits : Nat) (exponent : Int) : Double :=
  let magnitude := ((Nat.toDigits 10 digits).length : Int) + exponent
  if digits = 0 ∨ magnitude < -330 then .finite negative 0 minExponent
  else if 320 < magnitude then .infinite negative
  else ofQuotient negative (digits * Nat.pow 10 exponent.toNat) (Nat.pow 10 (-exponent).toNat)

/-- The whole part of a finite number, its fraction dropped. -/
def truncate (negative : Bool) (significand : Nat) (exponent : Int) : Int :=
  let whole := significand * Nat.pow 2 exponent.toNat / Nat.pow 2 (-exponent).toNat
  if negative then -(whole : Int) else whole

def isZero : Double → Bool
  | .finite _ significand _ => significand == 0
  | _ => false

def equalsInt : Double → Int → Bool
  | .finite negative significand exponent, n =>
    significand * Nat.pow 2 exponent.toNat % Nat.pow 2 (-exponent).toNat == 0
      && truncate negative significand exponent == n
  | _, _ => false

/-- Equality of values: the two zeros are equal. -/
def sameValue (a b : Double) : Bool := a == b || (a.isZero && b.isZero)

end Double

end FactoryIndex
