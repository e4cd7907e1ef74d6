import Codegen.Number.Binary64
import Mathlib.Algebra.Order.Field.Power
import Mathlib.Data.Rat.Cast.Order
import Mathlib.Tactic.FieldSimp
import Mathlib.Tactic.Linarith
import Mathlib.Tactic.Positivity
import Mathlib.Tactic.Ring

namespace Codegen.Number

/-- The value of a dyadic number. -/
def Dyadic.toRat (x : Dyadic) : ℚ :=
  x.coefficient * 2 ^ x.exponent

theorem two_zpow_eq (k : ℤ) : (2 : ℚ) ^ k = 2 ^ k.toNat / 2 ^ (-k).toNat := by
  rcases Int.le_total 0 k with hk | hk
  · lift k to ℕ using hk
    simp
  · obtain ⟨n, rfl⟩ := Int.exists_eq_neg_ofNat hk
    simp

theorem Dyadic.num_div_den (x : Dyadic) : (x.num : ℚ) / x.den = x.toRat := by
  rw [num, den, toRat, two_zpow_eq, Nat.pow_eq, Nat.pow_eq]
  push_cast
  ring

theorem Dyadic.den_pos (x : Dyadic) : 0 < x.den :=
  Nat.pow_pos (by decide)

theorem lt_two_zpow_iff {num den : ℕ} (hden : 0 < den) (k : ℤ) :
    (num : ℚ) / den < 2 ^ k ↔ num * Nat.pow 2 (-k).toNat < den * Nat.pow 2 k.toNat := by
  have hden' : (0 : ℚ) < den := by exact_mod_cast hden
  have hpow : (0 : ℚ) < 2 ^ (-k).toNat := by positivity
  rw [two_zpow_eq, div_lt_div_iff₀ hden' hpow, mul_comm ((2 : ℚ) ^ k.toNat), Nat.pow_eq, Nat.pow_eq]
  exact_mod_cast Iff.rfl

/-- Two quotients with leading digits at `a` and `d` have one with its leading digit at `a - d` or
one place below. -/
theorem log2_quotient_bounds {num den : ℕ} (hnum : 0 < num) (hden : 0 < den) :
    (2 : ℚ) ^ ((num.log2 : ℤ) - den.log2 - 1) < num / den ∧
      (num : ℚ) / den < 2 ^ ((num.log2 : ℤ) - den.log2 + 1) := by
  have hden' : (0 : ℚ) < den := by exact_mod_cast hden
  have hnumLow : (2 : ℚ) ^ (num.log2 : ℤ) ≤ num := by
    rw [zpow_natCast]
    exact_mod_cast Nat.log2_self_le hnum.ne'
  have hnumHigh : (num : ℚ) < 2 ^ ((num.log2 : ℤ) + 1) := by
    exact_mod_cast Nat.lt_log2_self (n := num)
  have hdenLow : (2 : ℚ) ^ (den.log2 : ℤ) ≤ den := by
    rw [zpow_natCast]
    exact_mod_cast Nat.log2_self_le hden.ne'
  have hdenHigh : (den : ℚ) < 2 ^ ((den.log2 : ℤ) + 1) := by
    exact_mod_cast Nat.lt_log2_self (n := den)
  constructor
  · rw [lt_div_iff₀ hden']
    calc (2 : ℚ) ^ ((num.log2 : ℤ) - den.log2 - 1) * den
        < 2 ^ ((num.log2 : ℤ) - den.log2 - 1) * 2 ^ ((den.log2 : ℤ) + 1) := by gcongr
      _ = 2 ^ (num.log2 : ℤ) := by
        rw [← zpow_add₀ two_ne_zero]
        congr 1
        ring
      _ ≤ num := hnumLow
  · rw [div_lt_iff₀ hden']
    calc (num : ℚ) < 2 ^ ((num.log2 : ℤ) + 1) := hnumHigh
      _ = 2 ^ ((num.log2 : ℤ) - den.log2 + 1) * 2 ^ (den.log2 : ℤ) := by
        rw [← zpow_add₀ two_ne_zero]
        congr 1
        ring
      _ ≤ 2 ^ ((num.log2 : ℤ) - den.log2 + 1) * den := by gcongr

/-- The leading binary digit of a quotient. -/
theorem leadingExponent_bounds {num den : ℕ} (hnum : 0 < num) (hden : 0 < den) :
    (2 : ℚ) ^ leadingExponent num den ≤ num / den ∧
      (num : ℚ) / den < 2 ^ (leadingExponent num den + 1) := by
  obtain ⟨hlow, hhigh⟩ := log2_quotient_bounds hnum hden
  by_cases hbelow : (num : ℚ) / den < 2 ^ ((num.log2 : ℤ) - den.log2)
  · have hlead : leadingExponent num den = (num.log2 : ℤ) - den.log2 - 1 :=
      if_pos ((lt_two_zpow_iff hden _).mp hbelow)
    rw [hlead, sub_add_cancel]
    exact ⟨hlow.le, hbelow⟩
  · have hlead : leadingExponent num den = (num.log2 : ℤ) - den.log2 :=
      if_neg (mt (lt_two_zpow_iff hden _).mpr hbelow)
    rw [hlead]
    exact ⟨not_lt.mp hbelow, hhigh⟩

/-- The quotient determines its leading binary digit. -/
theorem leadingExponent_lt_iff {num den : ℕ} (hnum : 0 < num) (hden : 0 < den) (k : ℤ) :
    leadingExponent num den < k ↔ (num : ℚ) / den < 2 ^ k := by
  obtain ⟨hlow, hhigh⟩ := leadingExponent_bounds hnum hden
  constructor
  · intro hk
    exact hhigh.trans_le (zpow_le_zpow_right₀ one_le_two (by omega))
  · intro hk
    exact (zpow_lt_zpow_iff_right₀ one_lt_two).mp (hlow.trans_lt hk)

theorem nearestQuotient_mul (n : ℕ) {den : ℕ} (hden : 0 < den) :
    nearestQuotient (n * den) den = n := by
  rw [nearestQuotient, Nat.mul_mod_left, Nat.mul_div_cancel n hden, Nat.mul_zero]
  exact if_pos (.inl hden)

/-- The numbers of a format: the coefficient has at most as many digits as the format keeps, and no
fewer unless the exponent is the least one. -/
structure BinaryFormat.Holds (format : BinaryFormat) (x : Dyadic) : Prop where
  coefficient_lt : x.coefficient < 2 ^ format.digits
  le_exponent : format.leastExponent ≤ x.exponent
  normal : x.exponent = format.leastExponent ∨ 2 ^ format.digits ≤ 2 * x.coefficient

/-- A number of a format that is not zero has the exponent at which a quotient of its value is
rounded. -/
theorem BinaryFormat.Holds.exponent_eq {format : BinaryFormat} {x : Dyadic} (hx : format.Holds x)
    {num den : ℕ} (hnum : 0 < num) (hden : 0 < den) (hvalue : (num : ℚ) / den = x.toRat) :
    max format.leastExponent (leadingExponent num den + 1 - format.digits) = x.exponent := by
  obtain ⟨hlt, hle, hnormal⟩ := hx
  have hpow : (0 : ℚ) < 2 ^ x.exponent := by positivity
  have hupper : leadingExponent num den < format.digits + x.exponent := by
    rw [leadingExponent_lt_iff hnum hden, hvalue, Dyadic.toRat, zpow_add₀ two_ne_zero, zpow_natCast]
    gcongr
    exact_mod_cast hlt
  have hlower : 2 ^ format.digits ≤ 2 * x.coefficient →
      ¬ leadingExponent num den < format.digits + x.exponent - 1 := by
    intro hmany hlead
    rw [leadingExponent_lt_iff hnum hden, hvalue, Dyadic.toRat, sub_eq_add_neg,
      zpow_add₀ two_ne_zero, zpow_add₀ two_ne_zero, zpow_natCast] at hlead
    have hmany' : (2 : ℚ) ^ format.digits ≤ 2 * x.coefficient := by exact_mod_cast hmany
    have hscaled := mul_le_mul_of_nonneg_right hmany' hpow.le
    rw [zpow_neg_one] at hlead
    linarith
  rcases hnormal with hleast | hmany
  · omega
  · have := hlower hmany
    omega

/-- Rounding a quotient that equals a number of the format gives that number. -/
theorem BinaryFormat.Holds.nearest_eq {format : BinaryFormat} {x : Dyadic} (hx : format.Holds x)
    {num den : ℕ} (hden : 0 < den) (hvalue : (num : ℚ) / den = x.toRat) :
    format.nearest num den = x := by
  have hden' : (den : ℚ) ≠ 0 := by exact_mod_cast hden.ne'
  rcases Nat.eq_zero_or_pos num with rfl | hnum
  · have hzero : x.coefficient = 0 := by
      rw [Nat.cast_zero, zero_div, Dyadic.toRat, eq_comm, mul_eq_zero] at hvalue
      exact_mod_cast hvalue.resolve_right (by positivity)
    have hexponent : x.exponent = format.leastExponent := by
      refine hx.normal.resolve_right ?_
      rw [hzero, Nat.mul_zero]
      exact Nat.not_le.mpr (Nat.pow_pos (by decide))
    rw [nearest, if_pos rfl, ← hzero, ← hexponent]
  · have hexponent := hx.exponent_eq hnum hden hvalue
    have hcoefficient : num * Nat.pow 2 (-x.exponent).toNat =
        x.coefficient * (den * Nat.pow 2 x.exponent.toNat) := by
      rw [Dyadic.toRat, two_zpow_eq] at hvalue
      field_simp at hvalue
      rw [Nat.pow_eq, Nat.pow_eq]
      rw [mul_left_comm, ← mul_assoc]
      exact_mod_cast hvalue
    have hpos : 0 < den * Nat.pow 2 x.exponent.toNat := Nat.mul_pos hden (Nat.pow_pos (by decide))
    rw [nearest, if_neg hnum.ne']
    simp only [hexponent]
    rw [hcoefficient, nearestQuotient_mul _ hpos]

namespace Binary64

variable {x : Binary64}

theorem fraction_lt (x : Binary64) : x.fraction < 2 ^ 52 :=
  Nat.mod_lt _ (by decide)

theorem exponentField_lt (x : Binary64) : x.exponentField < 2 ^ 11 :=
  Nat.mod_lt _ (by decide)

/-- A pattern is its sign, its exponent field and its fraction. -/
theorem toNat_bits (x : Binary64) :
    x.bits.toNat = signBits x.isNegative + (x.exponentField * 2 ^ 52 + x.fraction) := by
  have hbits := x.bits.toNat_lt
  simp only [signBits, isNegative, exponentField, fraction, Nat.pow_eq, decide_eq_true_eq]
  split
  · omega
  · omega

theorem magnitude_of_zero (hfield : x.exponentField = 0) : x.magnitude = ⟨x.fraction, -1074⟩ :=
  if_pos hfield

theorem magnitude_of_ne_zero (hfield : x.exponentField ≠ 0) :
    x.magnitude = ⟨2 ^ 52 + x.fraction, x.exponentField - 1075⟩ :=
  if_neg hfield

theorem holds_magnitude (x : Binary64) : BinaryFormat.double.Holds x.magnitude := by
  have hfraction := x.fraction_lt
  by_cases hfield : x.exponentField = 0
  · rw [magnitude_of_zero hfield]
    refine ⟨?_, le_rfl, .inl rfl⟩
    change x.fraction < 2 ^ 53
    omega
  · rw [magnitude_of_ne_zero hfield]
    refine ⟨?_, ?_, .inr ?_⟩
    · change 2 ^ 52 + x.fraction < 2 ^ 53
      omega
    · change (-1074 : ℤ) ≤ x.exponentField - 1075
      omega
    · change 2 ^ 53 ≤ 2 * (2 ^ 52 + x.fraction)
      omega

/-- The coefficient carries into the exponent field by itself. -/
theorem magnitude_bits (x : Binary64) :
    (x.magnitude.exponent + 1074).toNat * 2 ^ 52 + x.magnitude.coefficient =
      x.exponentField * 2 ^ 52 + x.fraction := by
  by_cases hfield : x.exponentField = 0
  · rw [magnitude_of_zero hfield, hfield]
    rfl
  · rw [magnitude_of_ne_zero hfield]
    simp only []
    omega

/-- The number that a finite pattern stands for. The exponent is biased, and the fraction stands
behind a leading one unless the exponent field is zero. -/
def toRat (x : Binary64) : ℚ :=
  let sign : ℚ := if x.isNegative then -1 else 1
  if x.exponentField = 0 then sign * (x.fraction / 2 ^ 52) * 2 ^ (-1022 : ℤ)
  else sign * (1 + x.fraction / 2 ^ 52) * 2 ^ ((x.exponentField : ℤ) - 1023)

theorem abs_toRat (x : Binary64) : |x.toRat| = x.magnitude.toRat := by
  have hsign : |if x.isNegative then (-1 : ℚ) else 1| = 1 := by
    split
    · rw [abs_neg, abs_one]
    · rw [abs_one]
  have hfraction : (0 : ℚ) ≤ x.fraction / 2 ^ 52 := by positivity
  have hunit : (2 : ℚ) ^ 52 ≠ 0 := by positivity
  by_cases hfield : x.exponentField = 0
  · have hpow : (2 : ℚ) ^ (-1022 : ℤ) = 2 ^ 52 * 2 ^ (-1074 : ℤ) := by
      rw [← zpow_natCast, ← zpow_add₀ two_ne_zero]
      rfl
    rw [toRat, if_pos hfield, magnitude_of_zero hfield, Dyadic.toRat, abs_mul, abs_mul, hsign,
      one_mul, abs_of_nonneg hfraction, abs_of_pos (by positivity), hpow, ← mul_assoc,
      div_mul_cancel₀ _ hunit]
  · have hpow : (2 : ℚ) ^ ((x.exponentField : ℤ) - 1023) =
        2 ^ 52 * 2 ^ ((x.exponentField : ℤ) - 1075) := by
      rw [← zpow_natCast, ← zpow_add₀ two_ne_zero]
      congr 1
      push_cast
      ring
    rw [toRat, if_neg hfield, magnitude_of_ne_zero hfield, Dyadic.toRat, abs_mul, abs_mul, hsign,
      one_mul, abs_of_pos (by positivity), abs_of_pos (by positivity), hpow, ← mul_assoc, add_mul,
      one_mul, div_mul_cancel₀ _ hunit]
    norm_num

/-- Rounding a quotient that equals the absolute value of a number gives the number back. -/
theorem ofQuotient_of_abs_toRat (hx : x.isFinite = true) {num den : ℕ} (hden : 0 < den)
    (hvalue : (num : ℚ) / den = |x.toRat|) : ofQuotient x.isNegative num den = x := by
  rw [abs_toRat] at hvalue
  have hnearest := x.holds_magnitude.nearest_eq hden hvalue
  have hfield : x.exponentField ≠ 2047 := by simpa [isFinite] using hx
  have hbound : x.exponentField * 2 ^ 52 + x.fraction ≤ infinityBits := by
    have hlt := x.exponentField_lt
    have hfraction := x.fraction_lt
    change _ ≤ 2047 * 2 ^ 52
    omega
  rw [ofQuotient, hnearest]
  simp only [Nat.pow_eq]
  rw [x.magnitude_bits, min_eq_right hbound, ofBits, ← x.toNat_bits, UInt64.ofNat_toNat]

theorem integer?_eq_some_iff {n : ℕ} :
    x.integer? = some n ↔ x.isFinite = true ∧ |x.toRat| = n := by
  have hden : (x.magnitude.den : ℚ) ≠ 0 := by exact_mod_cast x.magnitude.den_pos.ne'
  have hvalue : |x.toRat| = n ↔ x.magnitude.num = n * x.magnitude.den := by
    rw [abs_toRat, ← Dyadic.num_div_den, div_eq_iff hden]
    exact_mod_cast Iff.rfl
  rw [hvalue, integer?]
  constructor
  · intro h
    split at h
    · next hwhole =>
      rw [Bool.and_eq_true, beq_iff_eq] at hwhole
      obtain rfl := Option.some.inj h
      exact ⟨hwhole.1, (Nat.div_mul_cancel (Nat.dvd_of_mod_eq_zero hwhole.2)).symm⟩
    · cases h
  · rintro ⟨hfinite, hnum⟩
    rw [hfinite, hnum, Nat.mul_mod_left, Nat.mul_div_cancel n x.magnitude.den_pos]
    rfl

end Binary64

end Codegen.Number
