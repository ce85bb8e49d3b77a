import FactoryIndex.Number.Seconds
import Mathlib.Algebra.Order.Field.Power
import Mathlib.Tactic.FieldSimp
import Mathlib.Tactic.Linarith
import Mathlib.Tactic.Positivity
import Mathlib.Tactic.Ring

/-!
# Rounding keeps the order

A quotient is rounded in units of a power of two that depends on its size. The unit grows with the quotient,
and at the seam between two units the results of the smaller one stop where those of the greater one start.
So rounding is monotone. What has a significand and an exponent is rounded to itself, and any other result is off
by at most half a unit, which is one part in `2 ^ 53` of what was rounded.

Ages and lifetimes are compared after rounding. So an age that has outlasted a lifetime goes on to do so as it grows
and as the lifetime shrinks. An age up to the lifetime does not outlast it, and one that is longer by more than one
part in `2 ^ 53` does.
-/

namespace FactoryIndex

/-! ### To the nearest natural number -/

section Nearest

variable {n d n' d' bound : Nat}

theorem roundQuotient_bounds (n d : Nat) : n / d ≤ roundQuotient n d ∧ roundQuotient n d ≤ n / d + 1 := by
  unfold roundQuotient
  simp only
  split_ifs <;> omega

theorem le_roundQuotient (hd : 0 < d) (h : bound * d ≤ n) : bound ≤ roundQuotient n d :=
  ((Nat.le_div_iff_mul_le hd).2 h).trans (roundQuotient_bounds n d).1

theorem roundQuotient_le (hd : 0 < d) (h : n < bound * d) : roundQuotient n d ≤ bound :=
  (roundQuotient_bounds n d).2.trans ((Nat.div_lt_iff_lt_mul hd).2 h)

theorem roundQuotient_mono (hd : 0 < d) (hd' : 0 < d') (h : n * d' ≤ n' * d) :
    roundQuotient n d ≤ roundQuotient n' d' := by
  have hn := Nat.div_add_mod n d
  have hn' := Nat.div_add_mod n' d'
  have hquotient : n / d ≤ n' / d' := by
    apply (Nat.le_div_iff_mul_le hd').2
    have hle : n / d * d ≤ n := Nat.div_mul_le_self n d
    nlinarith
  rcases hquotient.lt_or_eq with hlt | heq
  · have hleft := (roundQuotient_bounds n d).2
    have hright := (roundQuotient_bounds n' d').1
    omega
  · -- The whole parts are the same, so the remainders decide.
    have hremainder : n % d * d' ≤ n' % d' * d := by
      rw [← heq] at hn'
      nlinarith
    have hless : 2 * (n' % d') < d' → 2 * (n % d) < d := by
      intro hlt
      nlinarith
    have hmost : 2 * (n' % d') ≤ d' → 2 * (n % d) ≤ d := by
      intro hle
      nlinarith
    unfold roundQuotient
    simp only
    split_ifs <;> omega

theorem roundQuotient_error (hd : 0 < d) :
    2 * n ≤ (2 * roundQuotient n d + 1) * d ∧ 2 * roundQuotient n d * d ≤ 2 * n + d := by
  have hn := Nat.div_add_mod n d
  have hlt := Nat.mod_lt n hd
  unfold roundQuotient
  simp only
  generalize n / d = quotient at hn ⊢
  generalize n % d = remainder at hn hlt ⊢
  split_ifs <;> constructor <;> nlinarith

end Nearest

namespace Double

/-! ### The unit of a quotient -/

def unitExponent (numerator denominator : Nat) : Int :=
  let difference : Int := (numerator.log2 : Int) - (denominator.log2 : Int) - 53
  let estimate := if difference < minExponent then minExponent else difference
  let units := inUnits numerator denominator estimate
  if significandBound ≤ units.1 / units.2 then estimate + 1 else estimate

def inUnit (numerator denominator : Nat) : Nat :=
  let units := inUnits numerator denominator (unitExponent numerator denominator)
  roundQuotient units.1 units.2

def rounded (numerator denominator : Nat) : Int × Nat :=
  if inUnit numerator denominator = significandBound then
    (unitExponent numerator denominator + 1, inUnit numerator denominator / 2)
  else (unitExponent numerator denominator, inUnit numerator denominator)

theorem ofQuotient_eq {numerator : Nat} (hpos : 0 < numerator) (negative : Bool) (denominator : Nat) :
    ofQuotient negative numerator denominator =
      if maxExponent < (rounded numerator denominator).1 then .infinite negative
      else .finite negative (rounded numerator denominator).2 (rounded numerator denominator).1 := by
  rw [ofQuotient, if_neg hpos.ne']
  show (let result := if inUnit numerator denominator = significandBound then
        (inUnit numerator denominator / 2, unitExponent numerator denominator + 1)
      else (inUnit numerator denominator, unitExponent numerator denominator)
    if maxExponent < result.2 then Double.infinite negative else .finite negative result.1 result.2) = _
  unfold rounded
  by_cases h : inUnit numerator denominator = significandBound
  · simp only [if_pos h]
  · simp only [if_neg h]

section Unit

variable {numerator denominator : Nat}

theorem inUnits_snd_pos (hd : 0 < denominator) (exponent : Int) :
    0 < (inUnits numerator denominator exponent).2 :=
  Nat.mul_pos hd (Nat.two_pow_pos _)

theorem fst_inUnits_mul (hd : 0 < denominator) (exponent : Int) :
    ((inUnits numerator denominator exponent).1 : ℚ) * 2 ^ exponent =
      numerator / denominator * (inUnits numerator denominator exponent).2 := by
  have hd' : (denominator : ℚ) ≠ 0 := by exact_mod_cast hd.ne'
  have hunit : (2 : ℚ) ^ (-exponent).toNat * 2 ^ exponent = 2 ^ exponent.toNat := by
    rw [← zpow_natCast, ← zpow_natCast, ← zpow_add₀ two_ne_zero]
    congr 1
    omega
  simp only [inUnits, Nat.pow_eq, Nat.cast_mul, Nat.cast_pow, Nat.cast_ofNat]
  rw [mul_assoc, hunit]
  field_simp

theorem mul_snd_inUnits_le_iff (hd : 0 < denominator) (count : Nat) (exponent : Int) :
    count * (inUnits numerator denominator exponent).2 ≤ (inUnits numerator denominator exponent).1 ↔
      (count : ℚ) * 2 ^ exponent ≤ numerator / denominator := by
  have hunit : (0 : ℚ) < 2 ^ exponent := by positivity
  have hpos : (0 : ℚ) < (inUnits numerator denominator exponent).2 := by exact_mod_cast inUnits_snd_pos hd exponent
  rw [← Nat.cast_le (α := ℚ), Nat.cast_mul, ← mul_le_mul_iff_left₀ hunit, fst_inUnits_mul hd, mul_right_comm,
    mul_le_mul_iff_left₀ hpos]

theorem lt_mul_snd_inUnits_iff (hd : 0 < denominator) (count : Nat) (exponent : Int) :
    (inUnits numerator denominator exponent).1 < count * (inUnits numerator denominator exponent).2 ↔
      (numerator : ℚ) / denominator < count * 2 ^ exponent := by
  rw [← not_le, ← not_le, mul_snd_inUnits_le_iff hd]

theorem two_zpow_log2_le {n : Nat} (hn : 0 < n) : (2 : ℚ) ^ (n.log2 : Int) ≤ n := by
  rw [zpow_natCast]
  exact_mod_cast Nat.log2_self_le hn.ne'

theorem lt_two_zpow_log2_add_one (n : Nat) : (n : ℚ) < 2 ^ ((n.log2 : Int) + 1) := by
  have hlt : n < 2 ^ (n.log2 + 1) := Nat.lt_log2_self
  have hcast : (n : ℚ) < 2 ^ (n.log2 + 1) := by exact_mod_cast hlt
  rw [← Nat.cast_succ, zpow_natCast]
  exact hcast

/-- A quotient lies between the powers of two that the lengths of its parts tell. -/
theorem quotient_between (hn : 0 < numerator) (hd : 0 < denominator) :
    (2 : ℚ) ^ ((numerator.log2 : Int) - denominator.log2 - 1) ≤ numerator / denominator ∧
      (numerator : ℚ) / denominator < 2 ^ ((numerator.log2 : Int) - denominator.log2 + 1) := by
  have hd' : (0 : ℚ) < denominator := by exact_mod_cast hd
  have htwo : (2 : ℚ) ≠ 0 := two_ne_zero
  constructor
  · rw [le_div_iff₀ hd']
    calc (2 : ℚ) ^ ((numerator.log2 : Int) - denominator.log2 - 1) * denominator
        ≤ 2 ^ ((numerator.log2 : Int) - denominator.log2 - 1) * 2 ^ ((denominator.log2 : Int) + 1) := by
          gcongr
          exact (lt_two_zpow_log2_add_one denominator).le
      _ = 2 ^ (numerator.log2 : Int) := by
          rw [← zpow_add₀ htwo]
          congr 1
          ring
      _ ≤ numerator := two_zpow_log2_le hn
  · rw [div_lt_iff₀ hd']
    calc (numerator : ℚ) < 2 ^ ((numerator.log2 : Int) + 1) := lt_two_zpow_log2_add_one numerator
      _ = 2 ^ ((numerator.log2 : Int) - denominator.log2 + 1) * 2 ^ (denominator.log2 : Int) := by
          rw [← zpow_add₀ htwo]
          congr 1
          ring
      _ ≤ 2 ^ ((numerator.log2 : Int) - denominator.log2 + 1) * denominator := by
          gcongr
          exact two_zpow_log2_le hd

theorem two_pow_mul_zpow {unit exponent : Int} (hle : unit ≤ exponent) :
    (2 : ℚ) ^ (exponent - unit).toNat * 2 ^ unit = 2 ^ exponent := by
  rw [← zpow_natCast, ← zpow_add₀ two_ne_zero]
  congr 1
  omega

theorem significandBound_mul_zpow (exponent : Int) :
    (significandBound : ℚ) * 2 ^ exponent = 2 ^ (exponent + 53) := by
  rw [zpow_add₀ two_ne_zero, mul_comm]
  norm_num [significandBound]

theorem half_significandBound_mul_zpow (exponent : Int) :
    ((significandBound / 2 : Nat) : ℚ) * 2 ^ exponent = 2 ^ (exponent + 52) := by
  rw [zpow_add₀ two_ne_zero, mul_comm]
  norm_num [significandBound]

/-- **The unit of a quotient.** A quotient has fewer units than the bound of significands, and at least half as
many unless its unit is the least one. -/
theorem unitExponent_spec (hn : 0 < numerator) (hd : 0 < denominator) :
    minExponent ≤ unitExponent numerator denominator ∧
      (numerator : ℚ) / denominator < significandBound * 2 ^ unitExponent numerator denominator ∧
      (unitExponent numerator denominator = minExponent ∨
        ((significandBound / 2 : Nat) : ℚ) * 2 ^ unitExponent numerator denominator ≤ numerator / denominator) := by
  obtain ⟨hlow, hhigh⟩ := quotient_between hn hd
  rw [significandBound_mul_zpow, half_significandBound_mul_zpow]
  unfold unitExponent
  simp only [Nat.le_div_iff_mul_le (inUnits_snd_pos hd _), mul_snd_inUnits_le_iff hd, significandBound_mul_zpow]
  generalize (numerator.log2 : Int) - denominator.log2 = size at hlow hhigh ⊢
  by_cases hsmall : size - 53 < minExponent
  · -- The quotient is so small that its unit is the least one.
    rw [if_pos hsmall]
    have hlt : (numerator : ℚ) / denominator < 2 ^ (minExponent + 53) :=
      hhigh.trans_le (zpow_le_zpow_right₀ one_le_two (by omega))
    rw [if_neg (not_le.2 hlt)]
    exact ⟨le_rfl, hlt, Or.inl rfl⟩
  · rw [if_neg hsmall]
    split_ifs with hmany
    · refine ⟨by omega, ?_, Or.inr ?_⟩
      · rwa [show size - 53 + 1 + 53 = size + 1 by ring]
      · rwa [show size - 53 + 1 + 52 = size - 53 + 53 by ring]
    · refine ⟨by omega, not_le.1 hmany, Or.inr ?_⟩
      rwa [show size - 53 + 52 = size - 1 by ring]

theorem unitExponent_mono {numerator' : Nat} (hn : 0 < numerator) (hd : 0 < denominator)
    (hle : numerator ≤ numerator') :
    unitExponent numerator denominator ≤ unitExponent numerator' denominator := by
  obtain ⟨hmin, hlt, -⟩ := unitExponent_spec (hn.trans_le hle) hd
  obtain ⟨-, -, hleast | hhalf⟩ := unitExponent_spec hn hd
  · rwa [hleast]
  · have hquotient : (numerator : ℚ) / denominator ≤ numerator' / denominator := by gcongr
    rw [significandBound_mul_zpow] at hlt
    rw [half_significandBound_mul_zpow] at hhalf
    have hpow := (hhalf.trans hquotient).trans_lt hlt
    rw [zpow_lt_zpow_iff_right₀ one_lt_two] at hpow
    omega

theorem inUnit_le (hn : 0 < numerator) (hd : 0 < denominator) :
    inUnit numerator denominator ≤ significandBound := by
  apply roundQuotient_le (inUnits_snd_pos hd _)
  rw [lt_mul_snd_inUnits_iff hd]
  exact (unitExponent_spec hn hd).2.1

theorem le_inUnit (hn : 0 < numerator) (hd : 0 < denominator)
    (hunit : minExponent < unitExponent numerator denominator) :
    significandBound / 2 ≤ inUnit numerator denominator := by
  apply le_roundQuotient (inUnits_snd_pos hd _)
  rw [mul_snd_inUnits_le_iff hd]
  obtain ⟨-, -, hleast | hhalf⟩ := unitExponent_spec hn hd
  · omega
  · exact hhalf

theorem inUnit_mono {numerator' : Nat} (hd : 0 < denominator) (hle : numerator ≤ numerator')
    (hunit : unitExponent numerator denominator = unitExponent numerator' denominator) :
    inUnit numerator denominator ≤ inUnit numerator' denominator := by
  unfold inUnit
  rw [hunit]
  apply roundQuotient_mono (inUnits_snd_pos hd _) (inUnits_snd_pos hd _)
  apply Nat.mul_le_mul_right
  exact Nat.mul_le_mul_right _ hle

/-! ### The result -/

/-- Results are in order if their exponents are, or the exponents are the same and the significands are. -/
def InOrder (a b : Int × Nat) : Prop := a.1 < b.1 ∨ (a.1 = b.1 ∧ a.2 ≤ b.2)

/-- **Rounding keeps the order.** -/
theorem rounded_mono {numerator' : Nat} (hn : 0 < numerator) (hd : 0 < denominator)
    (hle : numerator ≤ numerator') : InOrder (rounded numerator denominator) (rounded numerator' denominator) := by
  have hn' := hn.trans_le hle
  have hmin := (unitExponent_spec hn hd).1
  have hbound := inUnit_le hn hd
  have hbound' := inUnit_le hn' hd
  unfold rounded InOrder
  rcases (unitExponent_mono hn hd hle).lt_or_eq with hlt | heq
  · -- Where the unit changes, the smaller results end at the half of the bound in the greater unit.
    have hhalf := le_inUnit hn' hd (hmin.trans_lt hlt)
    split_ifs <;> simp only <;> omega
  · have hmono := inUnit_mono hd hle heq
    split_ifs <;> simp only <;> omega

/-! ### Results in ticks -/

theorem minExponent_le_rounded (hn : 0 < numerator) (hd : 0 < denominator) :
    minExponent ≤ (rounded numerator denominator).1 := by
  have hmin := (unitExponent_spec hn hd).1
  unfold rounded
  split_ifs <;> simp only <;> omega

theorem rounded_lt (hn : 0 < numerator) (hd : 0 < denominator) :
    (rounded numerator denominator).2 < significandBound := by
  have hbound := inUnit_le hn hd
  have hpos : 0 < significandBound := by decide
  unfold rounded
  split_ifs <;> simp only <;> omega

theorem le_rounded (hn : 0 < numerator) (hd : 0 < denominator)
    (hexponent : minExponent < (rounded numerator denominator).1) :
    significandBound / 2 ≤ (rounded numerator denominator).2 := by
  unfold rounded at hexponent ⊢
  split_ifs at hexponent ⊢ with hbound
  · rw [hbound]
  · exact le_inUnit hn hd hexponent

def magnitude (result : Int × Nat) : Nat := result.2 * Nat.pow 2 (result.1 - minExponent).toNat

theorem ticks_finite (significand : Nat) (exponent : Int) :
    (finite false significand exponent).ticks = magnitude (exponent, significand) := by
  simp only [ticks, magnitude, Bool.false_eq_true, if_false, Nat.cast_mul]

theorem ticks_ofQuotient (hn : 0 < numerator) :
    (ofQuotient false numerator denominator).ticks =
      if maxExponent < (rounded numerator denominator).1 then (tickBound : Int)
      else magnitude (rounded numerator denominator) := by
  rw [ofQuotient_eq hn]
  split_ifs
  · rfl
  · exact ticks_finite _ _

theorem ticks_ofQuotient_zero (negative : Bool) (denominator : Nat) :
    (ofQuotient negative 0 denominator).ticks = 0 := by
  cases negative <;> simp [ofQuotient, ticks]

theorem ticks_ofQuotient_neg (numerator denominator : Nat) :
    (ofQuotient true numerator denominator).ticks = -(ofQuotient false numerator denominator).ticks := by
  rcases Nat.eq_zero_or_pos numerator with rfl | hn
  · rw [ticks_ofQuotient_zero, ticks_ofQuotient_zero, neg_zero]
  · rw [ofQuotient_eq hn, ofQuotient_eq hn]
    split_ifs <;> rfl

theorem ticks_ofQuotient_nonneg (numerator denominator : Nat) :
    0 ≤ (ofQuotient false numerator denominator).ticks := by
  rcases Nat.eq_zero_or_pos numerator with rfl | hn
  · rw [ticks_ofQuotient_zero]
  · rw [ticks_ofQuotient hn]
    split_ifs <;> exact Int.natCast_nonneg _

/-- The results of one exponent end where those of the next one begin. -/
theorem magnitude_lt_of_lt {result : Int × Nat} {exponent : Int} (hmin : minExponent ≤ result.1)
    (hlt : result.2 < significandBound) (hexponent : result.1 < exponent) :
    magnitude result < significandBound / 2 * Nat.pow 2 (exponent - minExponent).toNat := by
  have hsucc : (exponent - minExponent).toNat =
      ((result.1 - minExponent).toNat + 1) + (exponent - result.1 - 1).toNat := by omega
  have hone : 1 ≤ 2 ^ (exponent - result.1 - 1).toNat := Nat.one_le_two_pow
  have hpos : 0 < 2 ^ (result.1 - minExponent).toNat := Nat.two_pow_pos _
  unfold magnitude
  simp only [Nat.pow_eq]
  calc result.2 * 2 ^ (result.1 - minExponent).toNat
      < significandBound * 2 ^ (result.1 - minExponent).toNat := Nat.mul_lt_mul_of_pos_right hlt hpos
    _ = significandBound / 2 * 2 ^ ((result.1 - minExponent).toNat + 1) := by
        rw [Nat.pow_succ, Nat.mul_comm (2 ^ _) 2, ← Nat.mul_assoc,
          show significandBound / 2 * 2 = significandBound by decide]
    _ ≤ significandBound / 2 * 2 ^ (exponent - minExponent).toNat := by
        rw [hsucc, Nat.pow_add 2 (_ + 1)]
        exact Nat.mul_le_mul_left _ (Nat.le_mul_of_pos_right _ hone)

theorem magnitude_lt_tickBound {result : Int × Nat} (hmin : minExponent ≤ result.1)
    (hlt : result.2 < significandBound) (hmax : result.1 ≤ maxExponent) : magnitude result < tickBound := by
  have hnext := magnitude_lt_of_lt hmin hlt (Int.lt_add_one_of_le hmax)
  exact hnext.trans_eq (by decide +kernel)

theorem magnitude_mono {numerator' : Nat} (hn : 0 < numerator) (hd : 0 < denominator) (hle : numerator ≤ numerator') :
    magnitude (rounded numerator denominator) ≤ magnitude (rounded numerator' denominator) := by
  have hn' := hn.trans_le hle
  have hmin := minExponent_le_rounded hn hd
  rcases rounded_mono hn hd hle with hlt | ⟨heq, hsignificand⟩
  · refine (magnitude_lt_of_lt hmin (rounded_lt hn hd) hlt).le.trans ?_
    exact Nat.mul_le_mul_right _ (le_rounded hn' hd (hmin.trans_lt hlt))
  · unfold magnitude
    rw [heq]
    exact Nat.mul_le_mul_right _ hsignificand

/-- **Rounding keeps the order**, also at the ends of the range. -/
theorem ticks_ofQuotient_mono {numerator' : Nat} (hd : 0 < denominator) (hle : numerator ≤ numerator') :
    (ofQuotient false numerator denominator).ticks ≤ (ofQuotient false numerator' denominator).ticks := by
  rcases Nat.eq_zero_or_pos numerator with rfl | hn
  · rw [ticks_ofQuotient_zero]
    exact ticks_ofQuotient_nonneg _ _
  · have hn' := hn.trans_le hle
    have horder := rounded_mono hn hd hle
    rw [ticks_ofQuotient hn, ticks_ofQuotient hn']
    split_ifs with hinfinite hinfinite' hinfinite'
    · exact le_refl _
    · unfold InOrder at horder
      omega
    · exact_mod_cast (magnitude_lt_tickBound (minExponent_le_rounded hn hd) (rounded_lt hn hd) (not_lt.1 hinfinite)).le
    · exact_mod_cast magnitude_mono hn hd hle

/-! ### What is a number already -/

theorem ticksPerSecond_pos : 0 < ticksPerSecond := by decide +kernel

/-- A tick is the unit of the least exponent. -/
theorem mul_ticksPerSecond : (ticksPerSecond : ℚ) * 2 ^ minExponent = 1 := by
  unfold ticksPerSecond minExponent
  generalize hcount : 1074 = count
  rw [Nat.pow_eq, Nat.cast_pow, Nat.cast_ofNat, zpow_neg, ← Nat.cast_ofNat (R := Int), hcount, zpow_natCast,
    mul_inv_cancel₀ (by positivity)]

theorem cast_magnitude {result : Int × Nat} (hmin : minExponent ≤ result.1) :
    (magnitude result : ℚ) / ticksPerSecond = result.2 * 2 ^ result.1 := by
  have hne : (ticksPerSecond : ℚ) ≠ 0 := by exact_mod_cast ticksPerSecond_pos.ne'
  simp only [magnitude, Nat.pow_eq, Nat.cast_mul, Nat.cast_pow, Nat.cast_ofNat]
  rw [div_eq_iff hne, ← two_pow_mul_zpow hmin, mul_assoc, mul_assoc, mul_comm _ (ticksPerSecond : ℚ), mul_ticksPerSecond, mul_one]

theorem roundQuotient_mul (count : Nat) {d : Nat} (hd : 0 < d) : roundQuotient (count * d) d = count := by
  unfold roundQuotient
  simp only [Nat.mul_mod_left, Nat.mul_div_cancel _ hd]
  rw [if_pos (by omega)]

section Exact

variable {result : Int × Nat} (hmin : minExponent ≤ result.1) (hpos : 0 < result.2) (hlt : result.2 < significandBound)

include hmin hpos hlt

/-- The unit of a number is no greater than the one that it is written in. -/
theorem unitExponent_magnitude_le : unitExponent (magnitude result) ticksPerSecond ≤ result.1 := by
  have hn : 0 < magnitude result := Nat.mul_pos hpos (Nat.two_pow_pos _)
  obtain ⟨-, -, hleast | hhalf⟩ := unitExponent_spec hn ticksPerSecond_pos
  · rwa [hleast]
  · have hcast : (result.2 : ℚ) < significandBound := by exact_mod_cast hlt
    have hupper : (result.2 : ℚ) * 2 ^ result.1 < 2 ^ (result.1 + 53) := by
      rw [← significandBound_mul_zpow]
      gcongr
    rw [half_significandBound_mul_zpow, cast_magnitude hmin] at hhalf
    have hpow := hhalf.trans_lt hupper
    rw [zpow_lt_zpow_iff_right₀ one_lt_two] at hpow
    omega

theorem inUnit_magnitude :
    inUnit (magnitude result) ticksPerSecond =
      result.2 * 2 ^ (result.1 - unitExponent (magnitude result) ticksPerSecond).toNat := by
  have hunit := unitExponent_magnitude_le hmin hpos hlt
  have hfst := @fst_inUnits_mul (magnitude result) _ ticksPerSecond_pos
    (unitExponent (magnitude result) ticksPerSecond)
  have hsnd := @inUnits_snd_pos (magnitude result) _ ticksPerSecond_pos
    (unitExponent (magnitude result) ticksPerSecond)
  rw [cast_magnitude hmin, ← two_pow_mul_zpow hunit] at hfst
  unfold inUnit
  simp only
  generalize inUnits (magnitude result) ticksPerSecond (unitExponent (magnitude result) ticksPerSecond) = units
    at hfst hsnd ⊢
  generalize unitExponent (magnitude result) ticksPerSecond = unit at hfst ⊢
  have hcount : units.1 = result.2 * 2 ^ (result.1 - unit).toNat * units.2 := by
    have hne : (2 : ℚ) ^ unit ≠ 0 := by positivity
    have hcast : (units.1 : ℚ) = result.2 * 2 ^ (result.1 - unit).toNat * units.2 := by
      apply mul_right_cancel₀ hne
      rw [hfst]
      ring
    exact_mod_cast hcast
  rw [hcount, roundQuotient_mul _ hsnd]

theorem magnitude_rounded :
    magnitude (rounded (magnitude result) ticksPerSecond) = magnitude result ∧
      (rounded (magnitude result) ticksPerSecond).1 ≤ result.1 := by
  have hn : 0 < magnitude result := Nat.mul_pos hpos (Nat.two_pow_pos _)
  have hunit := unitExponent_magnitude_le hmin hpos hlt
  have hinUnit := inUnit_magnitude hmin hpos hlt
  obtain ⟨hleast, hbound, -⟩ := unitExponent_spec hn ticksPerSecond_pos
  rw [cast_magnitude hmin, ← two_pow_mul_zpow hunit, ← mul_assoc, mul_lt_mul_iff_left₀ (by positivity)] at hbound
  unfold rounded
  rw [hinUnit]
  generalize unitExponent (magnitude result) ticksPerSecond = unit at hunit hleast hbound ⊢
  have hsmall : result.2 * 2 ^ (result.1 - unit).toNat < significandBound := by exact_mod_cast hbound
  rw [if_neg hsmall.ne]
  refine ⟨?_, hunit⟩
  simp only [magnitude, Nat.pow_eq]
  rw [Nat.mul_assoc, ← Nat.pow_add]
  congr 2
  omega

end Exact

theorem ticks_ofQuotient_magnitude {result : Int × Nat} (hmin : minExponent ≤ result.1)
    (hlt : result.2 < significandBound) (hmax : result.1 ≤ maxExponent) :
    (ofQuotient false (magnitude result) ticksPerSecond).ticks = magnitude result := by
  rcases Nat.eq_zero_or_pos result.2 with hzero | hpos
  · have hnone : magnitude result = 0 := by rw [magnitude, hzero, Nat.zero_mul]
    rw [hnone, ticks_ofQuotient_zero]
    rfl
  · obtain ⟨hsame, hexponent⟩ := magnitude_rounded hmin hpos hlt
    have hn : 0 < magnitude result := Nat.mul_pos hpos (Nat.two_pow_pos _)
    rw [ticks_ofQuotient hn, if_neg (not_lt.2 (hexponent.trans hmax)), hsame]

/-! ### How far a result is from what was rounded -/

theorem rounded_value (numerator denominator : Nat) :
    ((rounded numerator denominator).2 : ℚ) * 2 ^ (rounded numerator denominator).1 =
      inUnit numerator denominator * 2 ^ unitExponent numerator denominator := by
  unfold rounded
  split_ifs with hbound
  · simp only [hbound]
    rw [half_significandBound_mul_zpow, significandBound_mul_zpow]
    congr 1
    ring
  · rfl

variable (numerator) in
/-- A result is at most half a unit away from what was rounded. -/
theorem abs_rounded_sub_le (hd : 0 < denominator) :
    |((rounded numerator denominator).2 : ℚ) * 2 ^ (rounded numerator denominator).1 - numerator / denominator| ≤
      2 ^ unitExponent numerator denominator / 2 := by
  rw [rounded_value]
  unfold inUnit
  simp only
  have hpos : 0 < (inUnits numerator denominator (unitExponent numerator denominator)).2 := inUnits_snd_pos hd _
  have hvalue : ((inUnits numerator denominator (unitExponent numerator denominator)).1 : ℚ) *
      2 ^ unitExponent numerator denominator = numerator / denominator *
        (inUnits numerator denominator (unitExponent numerator denominator)).2 := fst_inUnits_mul hd _
  have hunit : (0 : ℚ) < 2 ^ unitExponent numerator denominator := by positivity
  generalize inUnits numerator denominator (unitExponent numerator denominator) = units at hpos hvalue ⊢
  generalize (2 : ℚ) ^ unitExponent numerator denominator = unit at hvalue hunit ⊢
  have hpos' : (0 : ℚ) < units.2 := by exact_mod_cast hpos
  obtain ⟨hlow, hhigh⟩ := roundQuotient_error (n := units.1) hpos
  have hlow' : 2 * (units.1 : ℚ) ≤ (2 * roundQuotient units.1 units.2 + 1) * units.2 := by exact_mod_cast hlow
  have hhigh' : 2 * (roundQuotient units.1 units.2 : ℚ) * units.2 ≤ 2 * units.1 + units.2 := by
    exact_mod_cast hhigh
  rw [abs_le]
  constructor
  · rw [← mul_le_mul_iff_left₀ hpos']
    nlinarith
  · rw [← mul_le_mul_iff_left₀ hpos']
    nlinarith

/-- A result falls short of what was rounded by at most one part in the bound of significands. -/
theorem le_magnitude_rounded {count : Nat} (hpos : 0 < count) :
    (significandBound - 1) * count ≤ significandBound * magnitude (rounded count ticksPerSecond) := by
  have hd := ticksPerSecond_pos
  have hd' : (0 : ℚ) < ticksPerSecond := by exact_mod_cast hd
  have hvalue := cast_magnitude (minExponent_le_rounded hpos hd)
  have herror := (abs_le.1 (abs_rounded_sub_le count hd)).1
  obtain ⟨-, -, hleast | hhalf⟩ := unitExponent_spec hpos hd
  · -- In the least unit nothing is lost.
    rw [← hvalue, hleast, neg_le_sub_iff_le_add, ← mul_le_mul_iff_left₀ hd', add_mul, div_mul_cancel₀ _ hd'.ne',
      div_mul_cancel₀ _ hd'.ne', div_mul_eq_mul_div, mul_comm _ (ticksPerSecond : ℚ), mul_ticksPerSecond] at herror
    have hle : count ≤ magnitude (rounded count ticksPerSecond) := by
      have hcast : (2 * count : ℚ) ≤ 2 * magnitude (rounded count ticksPerSecond) + 1 := by linarith
      have hnat : 2 * count ≤ 2 * magnitude (rounded count ticksPerSecond) + 1 := by exact_mod_cast hcast
      omega
    exact Nat.mul_le_mul (Nat.sub_le _ _) hle
  · have hbound : (2 : ℚ) ^ unitExponent count ticksPerSecond / 2 * significandBound ≤ count / ticksPerSecond := by
      refine le_trans (le_of_eq ?_) hhalf
      rw [show (significandBound : ℚ) = 2 * (significandBound / 2 : Nat) by norm_num [significandBound]]
      ring
    have hpart : (significandBound - 1 : ℚ) * count ≤ significandBound * magnitude (rounded count ticksPerSecond) := by
      rw [← hvalue] at herror
      rw [← mul_le_mul_iff_left₀ (inv_pos.2 hd'), mul_assoc, mul_assoc, ← div_eq_mul_inv, ← div_eq_mul_inv]
      have hsignificand : (0 : ℚ) ≤ significandBound := Nat.cast_nonneg _
      have hscaled := mul_le_mul_of_nonneg_left herror hsignificand
      linarith only [hscaled, hbound]
    have hone : 1 ≤ significandBound := by decide +kernel
    rw [← Nat.cast_le (α := ℚ), Nat.cast_mul, Nat.cast_mul, Nat.cast_sub hone, Nat.cast_one]
    exact hpart

/-! ### Ticks -/

theorem ticks_ofQuotient_le (hd : 0 < denominator) : (ofQuotient false numerator denominator).ticks ≤ tickBound := by
  rcases Nat.eq_zero_or_pos numerator with rfl | hn
  · rw [ticks_ofQuotient_zero]
    exact Int.natCast_nonneg _
  · rw [ticks_ofQuotient hn]
    split_ifs with hinfinite
    · exact le_refl _
    · exact_mod_cast (magnitude_lt_tickBound (minExponent_le_rounded hn hd) (rounded_lt hn hd) (not_lt.1 hinfinite)).le

end Unit

theorem ticks_ofTicks_of_nonneg {count : Int} (h : 0 ≤ count) :
    (ofTicks count).ticks = (ofQuotient false count.toNat ticksPerSecond).ticks := by
  have hsign : decide (count < 0) = false := decide_eq_false (not_lt.2 h)
  have hsize : count.natAbs = count.toNat := by omega
  rw [ofTicks, hsign, hsize]

theorem ticks_ofTicks_of_neg {count : Int} (h : count < 0) :
    (ofTicks count).ticks = -(ofQuotient false (-count).toNat ticksPerSecond).ticks := by
  have hsize : count.natAbs = (-count).toNat := by omega
  rw [ofTicks, decide_eq_true h, hsize, ticks_ofQuotient_neg]

theorem ticks_ofTicks_mono {count count' : Int} (hle : count ≤ count') :
    (ofTicks count).ticks ≤ (ofTicks count').ticks := by
  rcases lt_or_ge count 0 with hneg | hnonneg
  · rw [ticks_ofTicks_of_neg hneg]
    rcases lt_or_ge count' 0 with hneg' | hnonneg'
    · rw [ticks_ofTicks_of_neg hneg']
      exact neg_le_neg (ticks_ofQuotient_mono ticksPerSecond_pos (by omega))
    · rw [ticks_ofTicks_of_nonneg hnonneg']
      exact (neg_nonpos.2 (ticks_ofQuotient_nonneg _ _)).trans (ticks_ofQuotient_nonneg _ _)
  · rw [ticks_ofTicks_of_nonneg hnonneg, ticks_ofTicks_of_nonneg (hnonneg.trans hle)]
    exact ticks_ofQuotient_mono ticksPerSecond_pos (by omega)

end Double

/-! ### Times -/

theorem seconds_of_nonneg {time : Int} (h : 0 ≤ time) : seconds time = .ofQuotient false time.toNat 1000 := by
  unfold seconds
  have hsign : decide (time < 0) = false := decide_eq_false (not_lt.2 h)
  rw [hsign]
  congr 1
  omega

theorem ticks_seconds_nonneg {time : Int} (h : 0 ≤ time) : 0 ≤ (seconds time).ticks := by
  rw [seconds_of_nonneg h]
  exact Double.ticks_ofQuotient_nonneg _ _

theorem ticks_seconds_mono {time time' : Int} (h : 0 ≤ time) (hle : time ≤ time') :
    (seconds time).ticks ≤ (seconds time').ticks := by
  rw [seconds_of_nonneg h, seconds_of_nonneg (h.trans hle)]
  exact Double.ticks_ofQuotient_mono (by decide) (by omega)

theorem ticks_seconds_lt {time : Int} (h : 0 ≤ time) (hfits : fitsSeconds time = true) :
    (seconds time).ticks < tickBound := by
  have hd : 0 < 1000 := by decide
  have hpos : (0 : Int) < tickBound := by exact_mod_cast (by decide +kernel : 0 < tickBound)
  unfold fitsSeconds at hfits
  rw [seconds_of_nonneg h] at hfits ⊢
  generalize time.toNat = count at hfits ⊢
  rcases Nat.eq_zero_or_pos count with rfl | hcount
  · rwa [Double.ticks_ofQuotient_zero]
  · rw [Double.ofQuotient_eq hcount] at hfits
    rw [Double.ticks_ofQuotient hcount]
    split_ifs at hfits ⊢ with hinfinite
    exact_mod_cast Double.magnitude_lt_tickBound (Double.minExponent_le_rounded hcount hd)
      (Double.rounded_lt hcount hd) (not_lt.1 hinfinite)

theorem outlasts_iff {since now lifetime : Int} :
    outlasts since now lifetime = true ↔ (seconds lifetime).ticks < (elapsed since now).ticks :=
  decide_eq_true_iff

/-- What has outlasted a lifetime still does when time has gone on and the lifetime has shrunk. -/
theorem outlasts_mono {since now now' lifetime lifetime' : Int} (hpos : 0 ≤ lifetime') (hnow : now ≤ now')
    (hlifetime : lifetime' ≤ lifetime) (h : outlasts since now lifetime = true) :
    outlasts since now' lifetime' = true := by
  rw [outlasts_iff] at h ⊢
  calc (seconds lifetime').ticks ≤ (seconds lifetime).ticks := ticks_seconds_mono hpos hlifetime
    _ < (elapsed since now).ticks := h
    _ ≤ (elapsed since now').ticks := Double.ticks_ofTicks_mono (by omega)

/-- A lifetime in seconds is a number already, so an age up to it is not rounded to more. -/
theorem not_outlasts_of_le {since now lifetime : Int} (hpos : 0 ≤ lifetime)
    (hage : now - since ≤ (seconds lifetime).ticks) : outlasts since now lifetime = false := by
  have hmono : (elapsed since now).ticks ≤ (Double.ofTicks (seconds lifetime).ticks).ticks :=
    Double.ticks_ofTicks_mono hage
  have hnonneg := ticks_seconds_nonneg hpos
  rw [← Bool.not_eq_true, outlasts_iff, not_lt]
  refine hmono.trans ?_
  rw [Double.ticks_ofTicks_of_nonneg hnonneg, seconds_of_nonneg hpos]
  generalize lifetime.toNat = count
  rcases Nat.eq_zero_or_pos count with rfl | hcount
  · rw [Double.ticks_ofQuotient_zero, Int.toNat_zero, Double.ticks_ofQuotient_zero]
  · have hd : 0 < 1000 := by decide
    rw [Double.ticks_ofQuotient hcount]
    split_ifs with hinfinite
    · exact Double.ticks_ofQuotient_le Double.ticksPerSecond_pos
    · rw [Int.toNat_natCast]
      exact (Double.ticks_ofQuotient_magnitude (Double.minExponent_le_rounded hcount hd)
        (Double.rounded_lt hcount hd) (not_lt.1 hinfinite)).le

theorem not_outlasts_self {lifetime : Int} (hpos : 0 ≤ lifetime) (now : Int) : outlasts now now lifetime = false :=
  not_outlasts_of_le hpos ((sub_self now).le.trans (ticks_seconds_nonneg hpos))

/-- An age that has not outlasted a lifetime in range is longer by at most one part in `2 ^ 53`. -/
theorem le_of_not_outlasts {since now lifetime : Int} (hpos : 0 ≤ lifetime) (hfits : fitsSeconds lifetime = true)
    (h : outlasts since now lifetime = false) :
    (2 ^ 53 - 1) * (now - since) ≤ 2 ^ 53 * (seconds lifetime).ticks := by
  have hnonneg := ticks_seconds_nonneg hpos
  rcases le_or_gt now since with hle | hlt
  · have hage : now - since ≤ 0 := by omega
    omega
  · rw [← Bool.not_eq_true, outlasts_iff, not_lt, elapsed, Double.ticks_ofTicks_of_nonneg (by omega)] at h
    have hcount : 0 < (now - since).toNat := by omega
    rw [Double.ticks_ofQuotient hcount] at h
    split_ifs at h with hinfinite
    · exact absurd (ticks_seconds_lt hpos hfits) (not_lt.2 h)
    · have hpart := Double.le_magnitude_rounded hcount
      have hbound : Double.significandBound = 2 ^ 53 := rfl
      rw [hbound] at hpart
      generalize Double.magnitude (Double.rounded (now - since).toNat ticksPerSecond) = rounded at h hpart
      omega

end FactoryIndex
