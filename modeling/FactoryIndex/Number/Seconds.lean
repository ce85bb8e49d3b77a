import FactoryIndex.Number.Double

/-!
# Times

Clocks and files tell their times in seconds, as double-precision numbers. Every finite one is a whole number
of *ticks* of `2 ^ -1074` seconds, and times are kept as their number of ticks. So a reading of a clock is kept
exactly, and readings are in the order of whole numbers.

How old something is, is computed: the difference of two readings is rounded to a double-precision number.
Lifetimes are whole numbers of milliseconds, and a number of milliseconds is rounded as well when it is turned
into seconds. It is these two numbers that are compared, so at the seam it depends on the readings whether an
age that should be the lifetime comes out as more.
-/

namespace FactoryIndex

@[irreducible]
def ticksPerSecond : Nat := Nat.pow 2 1074

/-- A number of ticks from which on times are out of the range of finite numbers. -/
@[irreducible]
def tickBound : Nat := Nat.pow 2 1024 * ticksPerSecond

namespace Double

/-- A number of seconds in ticks. What is no number comes to none. -/
def ticks : Double → Int
  | .nan => 0
  | .infinite negative => if negative then -tickBound else tickBound
  | .finite negative significand exponent =>
    let count : Int := significand * Nat.pow 2 (exponent - minExponent).toNat
    if negative then -count else count

/-- The number of seconds nearest to a number of ticks. -/
def ofTicks (count : Int) : Double := .ofQuotient (count < 0) count.natAbs ticksPerSecond

/-- Whether a number comes before another one, neither being `nan`. -/
def below (a b : Double) : Bool := decide (a.ticks < b.ticks)

end Double

def seconds (milliseconds : Int) : Double :=
  .ofQuotient (milliseconds < 0) milliseconds.natAbs 1000

/-- Whether a number of milliseconds, counted in seconds, is within the range of double-precision
numbers. -/
def fitsSeconds (milliseconds : Int) : Bool :=
  match seconds milliseconds with
  | .infinite _ => false
  | _ => true

/-- What a clock shows that counts milliseconds. -/
def reading (milliseconds : Int) : Int := (seconds milliseconds).ticks

/-- What a clock shows that counts nanoseconds. Their number is rounded before it is divided, unless it makes
whole seconds. -/
def fineReading (nanoseconds : Int) : Int :=
  let perSecond := 1000000000
  if nanoseconds % perSecond = 0 then (Double.ofTicks (nanoseconds / perSecond * ticksPerSecond)).ticks
  else
    let counted := (Double.ofTicks (nanoseconds * ticksPerSecond)).ticks / ticksPerSecond
    (Double.ofQuotient (counted < 0) counted.natAbs perSecond.toNat).ticks

/-- The time of a file: whole seconds, to which the nanoseconds are added as a fraction. -/
def fileReading (whole : Int) (nanoseconds : Nat) : Int :=
  let fraction := (Double.ofTicks (nanoseconds * (Double.ofDecimal false 1 (-9)).ticks)).ticks
  (Double.ofTicks (whole * ticksPerSecond + fraction)).ticks

def readable (time : Int) : Bool := decide (time.natAbs < tickBound)

def elapsed (since now : Int) : Double := .ofTicks (now - since)

/-- Whether more time than a lifetime, which is in milliseconds, has passed. -/
def outlasts (since now lifetime : Int) : Bool := (seconds lifetime).below (elapsed since now)

end FactoryIndex
