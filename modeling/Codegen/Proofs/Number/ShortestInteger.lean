import Codegen.Number.Shortest
import Codegen.Proofs.Number.ExactValue

namespace Codegen.Number

/-- Dropping the zeros at the end of a text leaves the text without them. -/
theorem exists_trailing_zeros (digits : List Char) :
    ∃ k, digits = (digits.reverse.dropWhile (· == '0')).reverse ++ List.replicate k '0' := by
  have hzeros : digits.reverse.takeWhile (· == '0') =
      List.replicate (digits.reverse.takeWhile (· == '0')).length '0' := by
    refine List.eq_replicate_of_mem fun c hc => ?_
    simpa using List.all_eq_true.mp List.all_takeWhile c hc
  refine ⟨(digits.reverse.takeWhile (· == '0')).length, ?_⟩
  rw [← List.reverse_replicate, ← hzeros, ← List.reverse_append, List.takeWhile_append_dropWhile,
    List.reverse_reverse]

/-- A power of ten appends zeros. -/
theorem toDigits_mul_pow {m : ℕ} (hm : 0 < m) (k : ℕ) :
    Nat.toDigits 10 (m * 10 ^ k) = Nat.toDigits 10 m ++ List.replicate k '0' := by
  induction k with
  | zero => simp
  | succ k ih =>
    have hstep : Nat.toDigits 10 (m * 10 ^ k) ++ Nat.toDigits 10 0 =
        Nat.toDigits 10 (10 * (m * 10 ^ k) + 0) :=
      Nat.toDigits_append_toDigits (by decide) (by positivity) (by decide)
    calc Nat.toDigits 10 (m * 10 ^ (k + 1))
        = Nat.toDigits 10 (10 * (m * 10 ^ k) + 0) := by ring_nf
      _ = Nat.toDigits 10 m ++ List.replicate k '0' ++ ['0'] := by
        rw [← hstep, ih]
        rfl
      _ = Nat.toDigits 10 m ++ List.replicate (k + 1) '0' := by
        rw [List.append_assoc, List.replicate_succ']

/-- A search upwards ends at the latest where there is something to be found. -/
theorem findSome?_range_of_isSome {α : Type} {f : ℕ → Option α} {k m : ℕ} (hk : k < m)
    (h : (f k).isSome = true) :
    ∃ j a, j ≤ k ∧ f j = some a ∧ (List.range m).findSome? f = some a := by
  have hfound : ((List.range (k + 1)).findSome? f).isSome = true :=
    List.findSome?_isSome_iff.mpr ⟨k, List.mem_range.mpr (Nat.lt_succ_self k), h⟩
  obtain ⟨a, ha⟩ := Option.isSome_iff_exists.mp hfound
  obtain ⟨j, hj, hja⟩ := List.exists_of_findSome?_eq_some ha
  refine ⟨j, a, Nat.lt_succ_iff.mp (List.mem_range.mp hj), hja, ?_⟩
  rw [← Nat.add_sub_cancel' (Nat.succ_le_of_lt hk), List.range_add, List.findSome?_append, ha,
    Option.some_or]

namespace Binary64.Interval

/-- The spacing of a decimal grid, on the same footing as `unit`. -/
def scale (i : Interval) (place : ℤ) : ℕ :=
  Nat.pow 10 place.toNat * Nat.pow 2 (-i.exponent).toNat

/-- The last place of an interval, on the same footing as `scale`. -/
def unit (i : Interval) (place : ℤ) : ℕ :=
  Nat.pow 2 i.exponent.toNat * Nat.pow 10 (-place).toNat

/-- The last point of a grid that is not above the number. -/
def down (i : Interval) (place : ℤ) : ℕ :=
  i.mid * i.unit place / i.scale place

/-- Whether a point of a grid lies in the interval. -/
def inside (i : Interval) (place : ℤ) (point : ℕ) : Bool :=
  if i.closed then
    i.low * i.unit place ≤ point * i.scale place && point * i.scale place ≤ i.high * i.unit place
  else
    i.low * i.unit place < point * i.scale place && point * i.scale place < i.high * i.unit place

variable {i : Interval} {place : ℤ} {point : ℕ}

theorem le_of_inside (h : i.inside place point = true) :
    i.low * i.unit place ≤ point * i.scale place ∧
      point * i.scale place ≤ i.high * i.unit place := by
  unfold inside at h
  split at h
  · simpa using h
  · rw [Bool.and_eq_true, decide_eq_true_eq, decide_eq_true_eq] at h
    exact ⟨h.1.le, h.2.le⟩

theorem inside_of_lt (hlow : i.low * i.unit place < point * i.scale place)
    (hhigh : point * i.scale place < i.high * i.unit place) : i.inside place point = true := by
  unfold inside
  split
  · simpa using ⟨hlow.le, hhigh.le⟩
  · simpa using ⟨hlow, hhigh⟩

/-- What is taken from a grid: one of the two points next to the number if it lies in the interval,
and of both the nearer. -/
theorem gridPoint?_cases (i : Interval) (place : ℤ) :
    i.inside place (i.down place) = true ∧ i.gridPoint? place = some (i.down place) ∨
      i.inside place (i.down place + 1) = true ∧ i.gridPoint? place = some (i.down place + 1) ∧
        (i.inside place (i.down place) = true →
          i.scale place ≤ 2 * (i.mid * i.unit place - i.down place * i.scale place)) ∨
      i.inside place (i.down place) = false ∧ i.inside place (i.down place + 1) = false ∧
        i.gridPoint? place = none := by
  unfold gridPoint?
  simp only []
  split
  · next hdown hup =>
    split
    · exact .inl ⟨hdown, rfl⟩
    · next hfar =>
      exact .inr (.inl ⟨hup, rfl, fun _ => Nat.not_lt.mp fun hnear => hfar (.inl hnear)⟩)
  · next hdown hup => exact .inl ⟨hdown, rfl⟩
  · next hdown hup =>
    refine .inr (.inl ⟨hup, rfl, fun hinside => ?_⟩)
    rw [show i.inside place (i.down place) = false from hdown] at hinside
    cases hinside
  · next hdown hup => exact .inr (.inr ⟨hdown, hup, rfl⟩)

theorem of_gridPoint? (h : i.gridPoint? place = some point) :
    i.inside place point = true ∧ i.down place ≤ point := by
  rcases gridPoint?_cases i place with ⟨hinside, hpoint⟩ | ⟨hinside, hpoint, -⟩ | ⟨-, -, hnone⟩
  · obtain rfl := Option.some.inj (h.symm.trans hpoint)
    exact ⟨hinside, le_rfl⟩
  · obtain rfl := Option.some.inj (h.symm.trans hpoint)
    exact ⟨hinside, Nat.le_succ _⟩
  · rw [hnone] at h
    cases h

theorem isSome_gridPoint?
    (h : i.inside place (i.down place) = true ∨ i.inside place (i.down place + 1) = true) :
    (i.gridPoint? place).isSome = true := by
  rcases gridPoint?_cases i place with ⟨-, hpoint⟩ | ⟨-, hpoint, -⟩ | ⟨hdown, hup, -⟩
  · rw [hpoint]
    rfl
  · rw [hpoint]
    rfl
  · rw [hdown, hup] at h
    simp at h

/-- A number that is itself a point of the grid is taken. -/
theorem gridPoint?_of_dvd (hinside : i.inside place (i.down place) = true)
    (hdvd : i.down place * i.scale place = i.mid * i.unit place) (hscale : 0 < i.scale place) :
    i.gridPoint? place = some (i.down place) := by
  rcases gridPoint?_cases i place with ⟨-, hpoint⟩ | ⟨-, -, hfar⟩ | ⟨hdown, -, -⟩
  · exact hpoint
  · have hle := hfar hinside
    rw [hdvd, Nat.sub_self] at hle
    omega
  · rw [hinside] at hdown
    cases hdown

/-- The number that an interval is around. -/
def center (i : Interval) : Dyadic :=
  ⟨i.mid, i.exponent⟩

variable {n : ℕ}

theorem mul_unit_natCast (i : Interval) (p : ℕ) : i.mid * i.unit p = i.center.num := by
  simp [unit, center, Dyadic.num]

theorem scale_natCast (i : Interval) (p : ℕ) : i.scale p = 10 ^ p * i.center.den := by
  simp [scale, center, Dyadic.den]

theorem scale_pos (i : Interval) (place : ℤ) : 0 < i.scale place :=
  Nat.mul_pos (Nat.pow_pos (by decide)) (Nat.pow_pos (by decide))

theorem unit_pos (i : Interval) (place : ℤ) : 0 < i.unit place :=
  Nat.mul_pos (Nat.pow_pos (by decide)) (Nat.pow_pos (by decide))

theorem down_natCast (hn : i.center.num = n * i.center.den) (p : ℕ) : i.down p = n / 10 ^ p := by
  rw [down, mul_unit_natCast, scale_natCast, hn, Nat.mul_div_mul_right _ _ i.center.den_pos]

/-- What the interval of a number other than zero is like: its ends are at most two quarters away,
and the lower one is not too near for the digits that a coefficient has. -/
structure Proper (i : Interval) : Prop where
  four_dvd : 4 ∣ i.mid
  low_lt : i.low < i.mid
  mid_le_low : i.mid ≤ i.low + 2
  high_eq : i.high = i.mid + 2
  mid_le_gap : i.mid ≤ (i.mid - i.low) * 2 ^ 54

/-- An integer is a point of the grid of the integers. -/
theorem gridPoint?_zero (hn : i.center.num = n * i.center.den) (hi : i.Proper) :
    i.gridPoint? 0 = some n := by
  have hdown : i.down 0 = n := by
    simpa using down_natCast hn 0
  have hdvd : i.down 0 * i.scale 0 = i.mid * i.unit 0 := by
    have hscale := i.scale_natCast 0
    have hunit := i.mul_unit_natCast 0
    rw [Nat.cast_zero, pow_zero, one_mul] at hscale
    rw [Nat.cast_zero] at hunit
    rw [hdown, hscale, hunit, hn]
  have hinside : i.inside 0 (i.down 0) = true := by
    refine inside_of_lt ?_ ?_
    · rw [hdvd]
      exact Nat.mul_lt_mul_of_pos_right hi.low_lt (i.unit_pos 0)
    · rw [hdvd, hi.high_eq]
      exact Nat.mul_lt_mul_of_pos_right (by omega) (i.unit_pos 0)
  rw [gridPoint?_of_dvd hinside hdvd (i.scale_pos 0), hdown]

/-- A point of a coarser grid in the interval of an integer is the integer, when the interval is
counted in fractions of one. -/
theorem mul_pow_of_inside (hn : i.center.num = n * i.center.den) (hi : i.Proper)
    (hexponent : i.exponent < 0) {p : ℕ} (h : i.inside (p + 1 : ℕ) point = true) :
    point * 10 ^ (p + 1) = n := by
  obtain ⟨half, hhalf⟩ : 2 ∣ i.center.den := by
    have hplaces : (-i.exponent).toNat ≠ 0 := by omega
    exact dvd_pow_self 2 hplaces
  obtain ⟨quarter, hquarter⟩ := hi.four_dvd
  have hunit : i.unit (p + 1 : ℕ) = 1 := by
    have hnum : i.exponent.toNat = 0 := by omega
    simp [unit, hnum]
  have hmid : i.mid = n * i.center.den := by
    rw [← hn, ← mul_unit_natCast i (p + 1), hunit, mul_one]
  obtain ⟨hlow, hhigh⟩ := le_of_inside h
  rw [hunit, mul_one, scale_natCast, ← mul_assoc] at hlow hhigh
  have hle := hi.mid_le_low
  have heq := hi.high_eq
  -- In units of two both sides are even and at most one apart.
  have hsame : point * 10 ^ (p + 1) * half = n * half := by
    have hten : point * 10 ^ (p + 1) * half = 2 * (point * 10 ^ p * 5 * half) := by ring
    have hdouble : ∀ m, m * i.center.den = 2 * (m * half) := by
      intro m
      rw [hhalf]
      ring
    rw [hdouble] at hlow hhigh hmid
    omega
  have hpos : 0 < half := by
    have hden := i.center.den_pos
    omega
  exact Nat.eq_of_mul_eq_mul_right hpos hsame

/-- A grid of sixteen places below the leading one has a point in the interval. -/
theorem isSome_gridPoint?_of_pow_le (hn : i.center.num = n * i.center.den) (hi : i.Proper) {p : ℕ}
    (hp : 10 ^ (p + 16) ≤ n) : (i.gridPoint? p).isSome = true := by
  have hscale : i.scale p * 10 ^ 16 ≤ i.mid * i.unit p := by
    rw [mul_unit_natCast, hn, scale_natCast, mul_right_comm, ← pow_add]
    exact Nat.mul_le_mul_right _ hp
  have hdown : i.down p * i.scale p + i.mid * i.unit p % i.scale p = i.mid * i.unit p := by
    rw [mul_comm]
    exact Nat.div_add_mod (i.mid * i.unit p) (i.scale p)
  have hrest := Nat.mod_lt (i.mid * i.unit p) (i.scale_pos p)
  generalize i.mid * i.unit p % i.scale p = rest at hdown hrest
  have hnear : i.mid * i.unit p ≤ (i.mid - i.low) * i.unit p * 2 ^ 54 := by
    rw [mul_right_comm]
    exact Nat.mul_le_mul_right _ hi.mid_le_gap
  have hgap : i.low * i.unit p + (i.mid - i.low) * i.unit p = i.mid * i.unit p := by
    rw [← add_mul, Nat.add_sub_cancel' hi.low_lt.le]
  have hgapPos : 0 < (i.mid - i.low) * i.unit p :=
    Nat.mul_pos (Nat.sub_pos_of_lt hi.low_lt) (i.unit_pos p)
  have hgapLe : (i.mid - i.low) * i.unit p ≤ 2 * i.unit p :=
    Nat.mul_le_mul_right _ (by have := hi.mid_le_low; omega)
  have hhigh : i.high * i.unit p = i.mid * i.unit p + 2 * i.unit p := by
    rw [hi.high_eq, add_mul]
  apply isSome_gridPoint?
  -- The nearer of the two points is at most half a spacing away, and that is less than the gap
  -- because `2 ^ 53 < 10 ^ 16`.
  rcases Nat.le_total (2 * rest) (i.scale p) with hnearer | hnearer
  · refine .inl (inside_of_lt ?_ ?_)
    · omega
    · omega
  · refine .inr (inside_of_lt ?_ ?_)
    · rw [add_one_mul]
      omega
    · rw [add_one_mul]
      omega

end Binary64.Interval

namespace Binary64

variable {x : Binary64} {n : ℕ}

theorem center_interval (hn : |x.toRat| = n) :
    x.interval.center.num = n * x.interval.center.den := by
  have hden : (x.interval.center.den : ℚ) ≠ 0 := by
    exact_mod_cast x.interval.center.den_pos.ne'
  have hvalue : x.interval.center.toRat = |x.toRat| := by
    have hquarter : (2 : ℚ) ^ (x.magnitude.exponent - 2) = 2 ^ x.magnitude.exponent / 4 := by
      rw [zpow_sub₀ two_ne_zero]
      norm_num
    rw [abs_toRat, Dyadic.toRat, Dyadic.toRat]
    change ((4 * x.magnitude.coefficient : ℕ) : ℚ) * 2 ^ (x.magnitude.exponent - 2) = _
    rw [hquarter]
    push_cast
    ring
  have hquotient := Dyadic.num_div_den x.interval.center
  rw [hvalue, hn, div_eq_iff hden] at hquotient
  exact_mod_cast hquotient

theorem coefficient_eq_zero_iff (hn : |x.toRat| = n) : x.magnitude.coefficient = 0 ↔ n = 0 := by
  have hpow : (2 : ℚ) ^ x.magnitude.exponent ≠ 0 := by positivity
  rw [abs_toRat, Dyadic.toRat] at hn
  rw [← Nat.cast_eq_zero (R := ℚ) (n := n), ← hn, mul_eq_zero, or_iff_left hpow, Nat.cast_eq_zero]

theorem proper_interval (hn : |x.toRat| = n) (hpos : 0 < n) : x.interval.Proper := by
  have hcoefficient : x.magnitude.coefficient ≠ 0 := mt (coefficient_eq_zero_iff hn).mp hpos.ne'
  have hlt : x.magnitude.coefficient < 2 ^ 53 := x.holds_magnitude.coefficient_lt
  rw [interval]
  -- The lower end of a power of two is half as far away.
  split
  · next hpower =>
    have hpower' : x.magnitude.coefficient = 2 ^ 52 := hpower.1
    constructor <;> simp only [] <;> omega
  · constructor <;> simp only [] <;> omega

/-- The integers below the limit have a fractional place in their interval. -/
theorem interval_exponent_neg (hn : |x.toRat| = n) (hlt : n < 10 ^ 16) :
    x.interval.exponent < 0 := by
  by_contra! hexponent
  change 0 ≤ x.magnitude.exponent - 2 at hexponent
  have hmany : 2 ^ 53 ≤ 2 * x.magnitude.coefficient := by
    refine x.holds_magnitude.normal.resolve_left fun hleast => ?_
    rw [hleast] at hexponent
    exact absurd hexponent (by decide)
  have hden : x.interval.center.den = 1 := by
    change 2 ^ (-(x.magnitude.exponent - 2)).toNat = 1
    rw [show (-(x.magnitude.exponent - 2)).toNat = 0 by omega, pow_zero]
  have hcenter := center_interval hn
  rw [hden, mul_one] at hcenter
  have hle : 4 * x.magnitude.coefficient ≤ x.interval.center.num :=
    Nat.le_mul_of_pos_right _ (Nat.pow_pos (by decide))
  omega

/-- The search for the shortest decimal of an integer ends at the latest on a grid that has a
point. -/
theorem exists_shortest (hn : |x.toRat| = n) (hpos : 0 < n) {lead k : ℕ}
    (hlead : (Nat.toDigits 10 n).length = lead + 1) (hk : k < 17) (hle : k ≤ lead)
    (hpoint : (x.interval.gridPoint? (lead - k : ℕ)).isSome = true) :
    ∃ p point, p ≤ lead ∧ lead - k ≤ p ∧ x.interval.gridPoint? (p : ℕ) = some point ∧
      x.shortest = ⟨((Nat.toDigits 10 point).reverse.dropWhile (· == '0')).reverse,
        p + (Nat.toDigits 10 point).length - 1⟩ := by
  have hleading : leadingDecimalExponent x.interval.center.num x.interval.center.den = lead := by
    have hden := x.interval.center.den_pos
    rw [leadingDecimalExponent, center_interval hn, if_pos (Nat.le_mul_of_pos_left _ hpos),
      Nat.mul_div_cancel _ hden, hlead]
    omega
  have hplace : ∀ j ≤ k, (lead : ℤ) - (j : ℕ) = ((lead - j : ℕ) : ℤ) := by
    intro j hj
    omega
  rw [← hplace k le_rfl] at hpoint
  obtain ⟨j, found, hj, hfound, hsearch⟩ := findSome?_range_of_isSome
    (f := fun extra : ℕ => (x.interval.gridPoint? (lead - (extra : ℤ))).map fun point =>
      (Nat.toDigits 10 point, (lead : ℤ) - (extra : ℤ))) hk (by rwa [Option.isSome_map])
  obtain ⟨point, hgrid, rfl⟩ := Option.map_eq_some_iff.mp hfound
  rw [hplace j hj] at hgrid
  refine ⟨lead - j, point, Nat.sub_le _ _, by omega, hgrid, ?_⟩
  rw [Interval.center] at hleading
  rw [shortest]
  simp only [hleading, hsearch, hplace j hj]

/-- Below the limit the digits are those of the integer, up to zeros at their end. -/
theorem shortest_of_lt (hn : |x.toRat| = n) (hpos : 0 < n) (hlt : n < 10 ^ 16) :
    x.shortest.exponent = (Nat.toDigits 10 n).length - 1 ∧
      ∃ k, Nat.toDigits 10 n = x.shortest.digits ++ List.replicate k '0' := by
  have hproper := proper_interval hn hpos
  have hcenter := center_interval hn
  have hlength : (Nat.toDigits 10 n).length ≤ 16 :=
    (Nat.length_toDigits_le_iff (by decide) (by decide)).mpr hlt
  obtain ⟨lead, hlead⟩ : ∃ lead, (Nat.toDigits 10 n).length = lead + 1 :=
    Nat.exists_eq_add_one.mpr Nat.length_toDigits_pos
  have hzero := Interval.gridPoint?_zero hcenter hproper
  obtain ⟨p, point, -, -, hgrid, hshortest⟩ := exists_shortest hn hpos hlead
    (k := lead) (by omega) le_rfl (by rw [Nat.sub_self, Nat.cast_zero, hzero]; rfl)
  have hpoint : point * 10 ^ p = n := by
    cases p with
    | zero =>
      rw [Nat.cast_zero, hzero] at hgrid
      rw [pow_zero, mul_one, Option.some.inj hgrid]
    | succ p =>
      exact Interval.mul_pow_of_inside hcenter hproper (interval_exponent_neg hn hlt)
        (Interval.of_gridPoint? hgrid).1
  have hdigits : Nat.toDigits 10 n = Nat.toDigits 10 point ++ List.replicate p '0' := by
    rw [← hpoint]
    exact toDigits_mul_pow (Nat.pos_of_mul_pos_right (hpoint ▸ hpos)) p
  obtain ⟨k, hk⟩ := exists_trailing_zeros (Nat.toDigits 10 point)
  rw [hshortest]
  constructor
  · rw [hdigits, List.length_append, List.length_replicate]
    push_cast
    ring
  · refine ⟨k + p, ?_⟩
    rw [List.replicate_add, ← List.append_assoc, ← hk]
    exact hdigits

/-- From the limit on the leading digit stands at the sixteenth place or higher. -/
theorem shortest_exponent_of_le (hn : |x.toRat| = n) (hle : 10 ^ 16 ≤ n) :
    16 ≤ x.shortest.exponent := by
  have hpos : 0 < n := lt_of_lt_of_le (by decide) hle
  have hproper := proper_interval hn hpos
  have hcenter := center_interval hn
  obtain ⟨lead, hlead⟩ : ∃ lead, (Nat.toDigits 10 n).length = lead + 1 :=
    Nat.exists_eq_add_one.mpr Nat.length_toDigits_pos
  have hleadLe : 16 ≤ lead := by
    by_contra! hfew
    have hlt := (Nat.length_toDigits_le_iff (n := n) (b := 10) (k := 16) (by decide) (by decide)).mp
      (by omega)
    omega
  have hpow : 10 ^ lead ≤ n := by
    by_contra! hlt
    have hfew := (Nat.length_toDigits_le_iff (by decide) (by omega)).mpr hlt
    omega
  obtain ⟨p, point, hp, -, hgrid, hshortest⟩ := exists_shortest hn hpos hlead
    (k := 16) (by decide) hleadLe
    (Interval.isSome_gridPoint?_of_pow_le hcenter hproper (by rwa [Nat.sub_add_cancel hleadLe]))
  have hpoint : 10 ^ (lead - p) ≤ point := by
    calc 10 ^ (lead - p) ≤ n / 10 ^ p := by
          rw [Nat.le_div_iff_mul_le (by positivity), ← pow_add, Nat.sub_add_cancel hp]
          exact hpow
      _ = x.interval.down p := (Interval.down_natCast hcenter p).symm
      _ ≤ point := (Interval.of_gridPoint? hgrid).2
  have hmany : lead - p < (Nat.toDigits 10 point).length := by
    by_contra! hfew
    have hlt := (Nat.length_toDigits_le_iff (n := point) (b := 10) (k := lead - p) (by decide)
      (lt_of_lt_of_le Nat.length_toDigits_pos hfew)).mp hfew
    omega
  rw [hshortest]
  change (16 : ℤ) ≤ p + (Nat.toDigits 10 point).length - 1
  omega

end Binary64

namespace Decimal

variable {d : Decimal}

/-- Digits that reach up to the ones stand before the point. -/
theorem positional_of_digits {digits : List Char} {k : ℕ} (hne : digits ≠ [])
    (hexponent : d.exponent = digits.length - 1)
    (hdigits : digits = d.digits ++ List.replicate k '0') :
    d.positional = digits ++ ['.', '0'] := by
  have hlength := List.length_pos_iff.mpr hne
  have hcount := congrArg List.length hdigits
  rw [List.length_append, List.length_replicate] at hcount
  have hwhole : d.exponent.toNat + 1 = digits.length := by omega
  have hzeros : digits.length - d.digits.length = k := by omega
  rw [positional, if_neg (by omega)]
  simp only [hwhole]
  rw [if_pos (by omega), hzeros, ← hdigits]

theorem e_mem_scientific (d : Decimal) : 'e' ∈ d.scientific := by
  simp [scientific]

end Decimal

namespace Binary64

variable {x : Binary64} {n : ℕ} {layout : DecimalLayout}

theorem isZero_iff (hn : |x.toRat| = n) : x.isZero = true ↔ n = 0 := by
  rw [← coefficient_eq_zero_iff hn, isZero, Bool.and_eq_true, beq_iff_eq, beq_iff_eq]
  by_cases hfield : x.exponentField = 0
  · rw [magnitude_of_zero hfield]
    exact and_iff_right hfield
  · rw [magnitude_of_ne_zero hfield]
    simp [hfield]

/-- An integer below the limit is written with its own digits. -/
theorem shortestText_of_lt (hleast : layout.leastPositional ≤ 0)
    (hgreatest : layout.greatestPositional = 15) (hn : |x.toRat| = n) (hlt : n < 10 ^ 16) :
    x.shortestText layout = (if x.isNegative then "-" else "") ++ Nat.repr n ++ ".0" := by
  rw [shortestText, String.append_assoc]
  congr 1
  rcases Nat.eq_zero_or_pos n with hzero | hpos
  · rw [if_pos ((isZero_iff hn).mpr hzero), hzero]
    rfl
  · obtain ⟨hexponent, k, hdigits⟩ := shortest_of_lt hn hpos hlt
    have hlength : (Nat.toDigits 10 n).length ≤ 16 :=
      (Nat.length_toDigits_le_iff (by decide) (by decide)).mpr hlt
    have hlengthPos : 0 < (Nat.toDigits 10 n).length := Nat.length_toDigits_pos
    rw [if_neg (mt (isZero_iff hn).mp hpos.ne'), Decimal.text, if_pos (by omega),
      Decimal.positional_of_digits Nat.toDigits_ne_nil hexponent hdigits]
    apply String.toList_inj.mp
    simp [Nat.toList_repr]

/-- An integer from the limit on is written with an exponent. -/
theorem e_mem_shortestText_of_le (hgreatest : layout.greatestPositional = 15) (hn : |x.toRat| = n)
    (hle : 10 ^ 16 ≤ n) : 'e' ∈ (x.shortestText layout).toList := by
  have hexponent := shortest_exponent_of_le hn hle
  have hne : n ≠ 0 := (lt_of_lt_of_le (by decide) hle).ne'
  have hbeyond : ¬ (layout.leastPositional ≤ x.shortest.exponent ∧
      x.shortest.exponent ≤ layout.greatestPositional) := by
    omega
  rw [shortestText, if_neg (mt (isZero_iff hn).mp hne), Decimal.text, if_neg hbeyond,
    String.toList_append, String.toList_ofList]
  exact List.mem_append_right _ x.shortest.e_mem_scientific

end Binary64

end Codegen.Number
