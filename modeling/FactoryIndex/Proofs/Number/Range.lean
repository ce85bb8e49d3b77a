import FactoryIndex.Proofs.Number.Rounding

/-!
# Where numbers become infinite

Halfway between the greatest number with a significand of 53 bits and the exponent 971, and the power of two that comes
next, lies the bound of what can be counted. A quotient below it is rounded to a finite number. The bound itself is a
tie, which goes to the even significand, and so it becomes infinite like all that is above it.

A number of seconds is within the range of double-precision numbers if it is below this bound.
-/

namespace FactoryIndex

/-- What is at least half a unit above an odd number is rounded up. -/
theorem lt_roundQuotient_of_odd {bound n d : Nat} (hd : 0 < d) (hodd : bound % 2 = 1)
    (hhalf : (2 * bound + 1) * d ≤ 2 * n) : bound < roundQuotient n d := by
  have hle : bound ≤ n / d := by
    apply (Nat.le_div_iff_mul_le hd).2
    nlinarith
  rcases hle.lt_or_eq with hlt | heq
  · exact hlt.trans_le (roundQuotient_bounds n d).1
  · -- The whole part is odd and the remainder is at least one half.
    have hn := Nat.div_add_mod n d
    have hremainder : d ≤ 2 * (n % d) := by
      rw [← heq] at hn
      nlinarith
    unfold roundQuotient
    simp only
    rw [← heq]
    split_ifs <;> omega

namespace Double

/-- The bound from which on numbers are infinite, `2 ^ 1024 - 2 ^ 970`. -/
def overflowBound : Nat := (2 * significandBound - 1) * 2 ^ 970

theorem cast_overflowBound : (overflowBound : ℚ) = (2 * significandBound - 1) * 2 ^ (970 : Int) := by
  rw [show (970 : Int) = (970 : Nat) from rfl, zpow_natCast]
  unfold overflowBound
  rw [Nat.cast_mul, Nat.cast_sub (by decide +kernel), Nat.cast_mul, Nat.cast_pow, Nat.cast_ofNat, Nat.cast_one]

theorem overflowBound_pos : 0 < overflowBound := by decide +kernel

theorem two_zpow_le_overflowBound : (2 : ℚ) ^ (1023 : Int) ≤ overflowBound := by
  rw [cast_overflowBound, show (1023 : Int) = 53 + 970 by norm_num, zpow_add₀ two_ne_zero]
  gcongr
  norm_num [significandBound]

theorem overflowBound_le_two_zpow : (overflowBound : ℚ) ≤ 2 ^ (1024 : Int) := by
  rw [cast_overflowBound, show (1024 : Int) = 54 + 970 by norm_num, zpow_add₀ two_ne_zero]
  gcongr
  norm_num [significandBound]

section Infinite

variable {numerator denominator : Nat}

/-- In units of `2 ^ 971` the bound is half a unit below the bound of significands. -/
theorem overflowBound_le_iff_of_unitExponent (hd : 0 < denominator)
    (hunit : unitExponent numerator denominator = maxExponent) :
    (overflowBound : ℚ) ≤ numerator / denominator ↔
      (2 * (significandBound - 1) + 1) * (inUnits numerator denominator (unitExponent numerator denominator)).2 ≤
        2 * (inUnits numerator denominator (unitExponent numerator denominator)).1 := by
  have hvalue : ((inUnits numerator denominator (unitExponent numerator denominator)).1 : ℚ) *
      2 ^ unitExponent numerator denominator = numerator / denominator *
        (inUnits numerator denominator (unitExponent numerator denominator)).2 := fst_inUnits_mul hd _
  have hpos : 0 < (inUnits numerator denominator (unitExponent numerator denominator)).2 := inUnits_snd_pos hd _
  generalize inUnits numerator denominator (unitExponent numerator denominator) = units at hvalue hpos ⊢
  have hpos' : (0 : ℚ) < units.2 := by exact_mod_cast hpos
  have htwo : (2 : ℚ) ^ (971 : Int) = 2 * 2 ^ (970 : Int) := by
    rw [show (971 : Int) = 1 + 970 by norm_num, zpow_add₀ two_ne_zero, zpow_one]
  have hpower : (0 : ℚ) < 2 ^ (970 : Int) := by positivity
  rw [hunit, maxExponent, htwo] at hvalue
  rw [← mul_le_mul_iff_left₀ hpos', ← hvalue, cast_overflowBound, mul_right_comm, ← mul_assoc (units.1 : ℚ),
    mul_le_mul_iff_left₀ hpower, mul_comm (units.1 : ℚ)]
  have hodd : (2 * significandBound - 1 : ℚ) = (2 * (significandBound - 1) + 1 : Nat) := by
    norm_num [significandBound]
  rw [hodd]
  exact_mod_cast Iff.rfl

theorem maxExponent_lt_rounded_iff (hn : 0 < numerator) (hd : 0 < denominator) :
    maxExponent < (rounded numerator denominator).1 ↔ (overflowBound : ℚ) ≤ numerator / denominator := by
  obtain ⟨-, hlt, hhalf⟩ := unitExponent_spec hn hd
  rw [significandBound_mul_zpow] at hlt
  rw [half_significandBound_mul_zpow] at hhalf
  have hgreat : maxExponent < unitExponent numerator denominator → (overflowBound : ℚ) ≤ numerator / denominator := by
    intro hunit
    rcases hhalf with hleast | hhalf
    · rw [hleast] at hunit
      exact absurd hunit (by decide)
    · unfold maxExponent at hunit
      exact (overflowBound_le_two_zpow.trans (zpow_le_zpow_right₀ one_le_two (by omega))).trans hhalf
  have hle := inUnit_le hn hd
  unfold rounded
  constructor
  · split_ifs with hbound
    · intro hexponent
      simp only at hexponent
      rcases (Int.lt_add_one_iff.1 hexponent).lt_or_eq with hunit | hunit
      · exact hgreat hunit
      · -- The quotient has been rounded up to the bound of significands.
        rw [overflowBound_le_iff_of_unitExponent hd hunit.symm]
        have hpos : 0 < (inUnits numerator denominator (unitExponent numerator denominator)).2 := inUnits_snd_pos hd _
        unfold inUnit at hbound
        simp only at hbound
        generalize inUnits numerator denominator (unitExponent numerator denominator) = units at hbound hpos ⊢
        obtain ⟨-, herror⟩ := @roundQuotient_error units.1 units.2 hpos
        rw [hbound, show 2 * significandBound = 2 * (significandBound - 1) + 1 + 1 by decide +kernel, Nat.add_one_mul]
          at herror
        omega
    · exact hgreat
  · intro hge
    have hpow := (two_zpow_le_overflowBound.trans hge).trans_lt hlt
    rw [zpow_lt_zpow_iff_right₀ one_lt_two] at hpow
    unfold maxExponent
    by_cases hunit : unitExponent numerator denominator = maxExponent
    · have hup := lt_roundQuotient_of_odd (inUnits_snd_pos hd _) (by decide +kernel)
        ((overflowBound_le_iff_of_unitExponent hd hunit).1 hge)
      have hbound : inUnit numerator denominator = significandBound := by
        have hup' : significandBound - 1 < inUnit numerator denominator := hup
        omega
      rw [if_pos hbound]
      simp only [hunit, maxExponent]
      omega
    · unfold maxExponent at hunit
      split_ifs <;> simp only <;> omega

/-- **Where numbers become infinite.** -/
theorem ofQuotient_eq_infinite_iff (hd : 0 < denominator) {negative sign : Bool} :
    ofQuotient negative numerator denominator = .infinite sign ↔
      negative = sign ∧ overflowBound * denominator ≤ numerator := by
  have hcast : overflowBound * denominator ≤ numerator ↔ (overflowBound : ℚ) ≤ numerator / denominator := by
    have hd' : (0 : ℚ) < denominator := by exact_mod_cast hd
    rw [le_div_iff₀ hd']
    exact_mod_cast Iff.rfl
  rcases Nat.eq_zero_or_pos numerator with rfl | hn
  · have hpos := Nat.mul_pos overflowBound_pos hd
    simp only [ofQuotient, if_true, reduceCtorEq, Nat.le_zero, false_iff, not_and]
    omega
  · rw [ofQuotient_eq hn, hcast, ← maxExponent_lt_rounded_iff hn hd]
    split_ifs with hinfinite
    · simp [hinfinite]
    · simp [hinfinite]

end Infinite

end Double

/-! ### Times -/

theorem seconds_eq_infinite_iff {time : Int} {sign : Bool} :
    seconds time = .infinite sign ↔ decide (time < 0) = sign ∧ Double.overflowBound * 1000 ≤ time.natAbs :=
  Double.ofQuotient_eq_infinite_iff (by decide)

theorem fitsSeconds_iff {time : Int} : fitsSeconds time = true ↔ time.natAbs < Double.overflowBound * 1000 := by
  unfold fitsSeconds
  split
  · next sign hinfinite =>
    have hle := (seconds_eq_infinite_iff.1 hinfinite).2
    simp only [Bool.false_eq_true, false_iff]
    omega
  · next hfinite =>
    simp only [true_iff]
    by_contra hle
    exact hfinite _ (seconds_eq_infinite_iff.2 ⟨rfl, by omega⟩)

end FactoryIndex
