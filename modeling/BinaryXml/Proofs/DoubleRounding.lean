import BinaryXml.Proofs.MidpointDistance
import BinaryXml.Proofs.ShortestDecimals

/-!
# Rounding twice

A ratio that is rounded to a double and then to a single number finds the position that it finds at
once, if it is closer to no midpoint than a double can tell: doubles are monotone, midpoints between
single numbers are doubles, and so are their neighbours at the precision of a double.
-/

namespace BinaryXml

-- Powers are those of `Nat` alone, whatever algebra is in scope.
attribute [local instance (high)] instPowNat

namespace FloatFormat

section Nearest

variable {x y z near : ℚ}

theorem le_of_nearest (h : |y - x| ≤ |z - x|) (le : x ≤ z) : y ≤ z := by
  rw [abs_of_nonneg (sub_nonneg.2 le)] at h
  linarith [le_abs_self (y - x)]

theorem ge_of_nearest (h : |y - x| ≤ |z - x|) (le : z ≤ x) : z ≤ y := by
  rw [abs_of_nonpos (sub_nonpos.2 le)] at h
  linarith [neg_abs_le (y - x)]

/-- What is nearer to another number below `z` is not rounded up to `z`. -/
theorem lt_of_nearest (h : |y - x| ≤ |near - x|) (below : near < z) (far : 2 * x < near + z) :
    y < z := by
  rcases abs_cases (near - x) with ⟨eq, -⟩ | ⟨eq, -⟩ <;> linarith [le_abs_self (y - x)]

theorem gt_of_nearest (h : |y - x| ≤ |near - x|) (above : z < near) (far : near + z < 2 * x) :
    z < y := by
  rcases abs_cases (near - x) with ⟨eq, -⟩ | ⟨eq, -⟩ <;> linarith [neg_abs_le (y - x)]

end Nearest

theorem contains_iff {i : Decimal.Interval} (unit : 0 < i.unit) (x : ℚ) : i.Contains x ↔
    if i.closed then (i.low / i.unit : ℚ) ≤ x ∧ x ≤ i.high / i.unit
    else (i.low / i.unit : ℚ) < x ∧ x < i.high / i.unit := by
  have unit' : (0 : ℚ) < i.unit := by exact_mod_cast unit
  unfold Decimal.Interval.Contains
  rw [div_le_iff₀ unit', div_lt_iff₀ unit', le_div_iff₀ unit', lt_div_iff₀ unit']

variable {f : FloatFormat} {significand shift : Nat}

theorem around_unit (f : FloatFormat) (significand shift m : Nat) :
    ((m * 2 ^ shift : Nat) / (Decimal.Interval.around f significand shift).unit : ℚ) =
      m * 2 ^ shift / 2 ^ (f.scale + 2) := by
  have unit : ((4 * 2 ^ f.scale : Nat) : ℚ) = 2 ^ (f.scale + 2) := by
    push_cast
    ring
  rw [Decimal.Interval.around, unit, Nat.cast_mul, Nat.cast_pow, Nat.cast_ofNat]

/-- The midpoints around an even number belong to it. -/
theorem around_contains_even (f : FloatFormat) (shift : Nat) (even : significand % 2 = 0) :
    ∃ m ≤ 4 * significand, ∀ x : ℚ,
    (Decimal.Interval.around f significand shift).Contains x ↔
      (m * 2 ^ shift / 2 ^ (f.scale + 2) : ℚ) ≤ x ∧
        x ≤ (4 * significand + 2 : Nat) * 2 ^ shift / 2 ^ (f.scale + 2) := by
  refine ⟨4 * significand - if significand = 2 ^ f.fractionBits ∧ 0 < shift then 1 else 2,
    Nat.sub_le _ _, fun x => ?_⟩
  have closed : (Decimal.Interval.around f significand shift).closed = true := decide_eq_true even
  rw [contains_iff (Nat.mul_pos (by decide) (Nat.two_pow_pos _)), if_pos closed,
    ← around_unit f significand shift, ← around_unit f significand shift]
  rfl

/-- The midpoints around an odd number belong to its neighbours. -/
theorem around_contains_odd (fraction : 0 < f.fractionBits) (odd : significand % 2 = 1) (x : ℚ) :
    (Decimal.Interval.around f significand shift).Contains x ↔
      ((2 * significand - 1 : Nat) * 2 ^ shift / 2 ^ (f.scale + 1) : ℚ) < x ∧
        x < (2 * significand + 1 : Nat) * 2 ^ shift / 2 ^ (f.scale + 1) := by
  have power : ¬ (significand = 2 ^ f.fractionBits ∧ 0 < shift) := by
    rintro ⟨rfl, -⟩
    obtain ⟨k, some⟩ := Nat.exists_eq_succ_of_ne_zero fraction.ne'
    rw [some, Nat.pow_succ] at odd
    omega
  have opened : ¬ (Decimal.Interval.around f significand shift).closed = true := by
    simp [Decimal.Interval.around, odd]
  have half (m : Nat) : (m * 2 ^ shift / 2 ^ (f.scale + 1) : ℚ) =
      (2 * m * 2 ^ shift : Nat) / (Decimal.Interval.around f significand shift).unit := by
    rw [around_unit]
    push_cast
    field_simp
    ring
  have low : (Decimal.Interval.around f significand shift).low =
      2 * (2 * significand - 1) * 2 ^ shift := by
    rw [Nat.mul_sub, ← Nat.mul_assoc]
    simp only [Decimal.Interval.around, if_neg power]
  have high : (Decimal.Interval.around f significand shift).high =
      2 * (2 * significand + 1) * 2 ^ shift := by
    rw [Nat.mul_add, ← Nat.mul_assoc]
    rfl
  rw [contains_iff (Nat.mul_pos (by decide) (Nat.two_pow_pos _)), if_neg opened, half, half, low,
    high]

section Doubles

variable {n d significand shift : Nat}

theorem nearest_double (pos : 0 < d) (finite : binary64.ofRatio n d < binary64.infinity)
    (shift : Nat) {m k : Nat} (small : m < 2 ^ 53) (scale : k ≤ 1074) :
    |binary64.magnitude (binary64.ofRatio n d) - n / d| ≤
      |(m * 2 ^ shift / 2 ^ k : ℚ) - n / d| := by
  have nearest := ofRatio_nearest pos n finite (m := m) small (shift + (1074 - k))
  have same : (m * 2 ^ (shift + (1074 - k)) / 2 ^ binary64.scale : ℚ) = m * 2 ^ shift / 2 ^ k := by
    have split : binary64.scale = k + (1074 - k) := by
      change 1074 = _
      omega
    rw [split, pow_add, pow_add]
    field_simp
  rwa [same] at nearest

theorem scaled_lt {a b c e k : Nat} (h : n * 2 ^ a < 2 ^ b * (d * 2 ^ c)) (room : b + c + e ≤ k) :
    n * 2 ^ (a + e) < 2 ^ k * d := by
  calc n * 2 ^ (a + e) = n * 2 ^ a * 2 ^ e := by rw [Nat.pow_add, Nat.mul_assoc]
    _ < 2 ^ b * (d * 2 ^ c) * 2 ^ e := Nat.mul_lt_mul_of_pos_right h (Nat.two_pow_pos e)
    _ = 2 ^ (b + c + e) * d := by
        rw [Nat.pow_add, Nat.pow_add]
        ring
    _ ≤ 2 ^ k * d := Nat.mul_le_mul_right d (Nat.pow_le_pow_right Nat.two_pos room)

/-- What is rounded to a single number is rounded to a finite double. -/
theorem ofRatio_double_lt_infinity (pos : 0 < d) (small : significand < 2 ^ 24)
    (bound : shift < 254)
    (within : (Decimal.Interval.around binary32 significand shift).Contains (n / d)) :
    binary64.ofRatio n d < binary64.infinity := by
  refine ofRatio_lt_infinity pos n (k := 1200) ?_ (by decide)
  obtain ⟨-, high, -⟩ := around_bounds pos n within
  have product : (significand + 1) * (d * 2 ^ shift) ≤ 2 ^ 24 * (d * 2 ^ shift) :=
    Nat.mul_le_mul_right _ small
  rw [Nat.succ_mul] at product
  have unit : 0 < d * 2 ^ shift := Nat.mul_pos pos (Nat.two_pow_pos _)
  have below : n * 2 ^ binary32.scale < 2 ^ 25 * (d * 2 ^ shift) := by omega
  have scale : binary64.scale = binary32.scale + 925 := rfl
  have room : 25 + shift + 925 ≤ binary64.fractionBits + 1200 + 1 := by
    change _ ≤ 52 + 1200 + 1
    omega
  rw [scale]
  exact scaled_lt below room

/-- A ratio is rounded to a double between the same midpoints, if from a single number that
excludes them it is far enough from them. -/
theorem double_contains (pos : 0 < d) (canonical : binary32.Canonical significand shift)
    (bound : shift < 254)
    (within : (Decimal.Interval.around binary32 significand shift).Contains (n / d))
    (far : significand % 2 = 1 → ∀ m : Nat, m = 2 * significand - 1 ∨ m = 2 * significand + 1 →
      2 ^ shift / 2 ^ 179 < |(n / d - m * 2 ^ shift / 2 ^ 150 : ℚ)|) :
    (Decimal.Interval.around binary32 significand shift).Contains
      (binary64.magnitude (binary64.ofRatio n d)) := by
  have small : significand < 2 ^ 24 := canonical.small
  have finite := ofRatio_double_lt_infinity pos small bound within
  rcases Nat.mod_two_eq_zero_or_one significand with even | odd
  · obtain ⟨m, low, iff⟩ := around_contains_even binary32 shift even
    rw [iff] at within ⊢
    exact ⟨ge_of_nearest (nearest_double pos finite shift (by omega) (by decide)) within.1,
      le_of_nearest (nearest_double pos finite shift (by omega) (by decide)) within.2⟩
  · have away := far odd
    rw [around_contains_odd (by decide) odd] at within ⊢
    have lower := away _ (.inl rfl)
    have upper := away _ (.inr rfl)
    change (_ / 2 ^ 150 : ℚ) < _ ∧ _ < (_ / 2 ^ 150 : ℚ) at within
    change (_ / 2 ^ 150 : ℚ) < _ ∧ _ < (_ / 2 ^ 150 : ℚ)
    rw [abs_of_pos (sub_pos.2 within.1)] at lower
    rw [abs_of_neg (sub_neg.2 within.2)] at upper
    -- Beside a midpoint there is a double nearer to the ratio.
    have step : (2 ^ shift / 2 ^ 178 : ℚ) = 2 * (2 ^ shift / 2 ^ 179) := by
      field_simp
    have tiny : (0 : ℚ) < 2 ^ shift / 2 ^ 179 := by positivity
    constructor
    · have beside : (((2 * significand - 1) * 2 ^ 28 + 1 : Nat) * 2 ^ shift / 2 ^ 178 : ℚ) =
          (2 * significand - 1 : Nat) * 2 ^ shift / 2 ^ 150 + 2 ^ shift / 2 ^ 178 := by
        rw [Nat.cast_add, Nat.cast_mul, Nat.cast_pow, Nat.cast_one, Nat.cast_ofNat]
        field_simp
      have nearest := nearest_double pos finite shift (k := 178)
        (m := (2 * significand - 1) * 2 ^ 28 + 1) (by omega) (by decide)
      rw [beside, step] at nearest
      exact gt_of_nearest nearest (by linarith) (by linarith)
    · have beside : (((2 * significand + 1) * 2 ^ 28 - 1 : Nat) * 2 ^ shift / 2 ^ 178 : ℚ) =
          (2 * significand + 1 : Nat) * 2 ^ shift / 2 ^ 150 - 2 ^ shift / 2 ^ 178 := by
        rw [Nat.cast_sub (by omega), Nat.cast_mul, Nat.cast_pow, Nat.cast_one, Nat.cast_ofNat]
        field_simp
      have nearest := nearest_double pos finite shift (k := 178)
        (m := (2 * significand + 1) * 2 ^ 28 - 1) (by omega) (by decide)
      rw [beside, step] at nearest
      exact lt_of_nearest nearest (by linarith) (by linarith)

end Doubles

/-- A double that lies between the midpoints around a single number is narrowed to it. -/
theorem convert_of_contains {position : Nat} (finite : position < binary64.infinity)
    (canonical : binary32.Canonical significand shift)
    (within : (Decimal.Interval.around binary32 significand shift).Contains
      (binary64.magnitude position))
    (bounded : shift * 2 ^ binary32.fractionBits + significand ≤ binary32.infinity)
    (negative : Bool) :
    binary64.convert binary32 (binary64.withSign negative position) =
      binary32.withSign negative (shift * 2 ^ binary32.fractionBits + significand) := by
  have ratio : binary64.magnitude position = (binary64.significandAt position *
      2 ^ binary64.shiftAt position : Nat) / (2 ^ binary64.scale : Nat) := by
    rw [magnitude, Nat.cast_mul, Nat.cast_pow, Nat.cast_pow, Nat.cast_ofNat]
  rw [ratio] at within
  rw [convert, value_withSign negative finite]
  dsimp only
  rw [ofRatio_of_contains (Nat.two_pow_pos _) _ canonical within, min_eq_left bounded]

end FloatFormat

namespace Decimal

open FloatFormat

variable {significand shift : Nat}

theorem exists_ratio (d : Decimal) : ∃ n k : Nat, 0 < k ∧ d.toRat = n / k ∧
    ∀ f, d.round f = f.ofRatio n k := by
  by_cases whole : 0 ≤ d.exponent
  · refine ⟨d.digits * 10 ^ d.exponent.toNat, 1, Nat.one_pos, ?_, fun f => if_pos whole⟩
    have none : (-d.exponent).toNat = 0 := by omega
    rw [toRat, ten_zpow, none, Nat.cast_mul, Nat.cast_pow, Nat.cast_ofNat, Nat.cast_one, pow_zero]
    ring
  · refine ⟨d.digits, 10 ^ (-d.exponent).toNat, Nat.pow_pos (by decide), ?_, fun f => if_neg whole⟩
    have none : d.exponent.toNat = 0 := by omega
    rw [toRat, ten_zpow, none, Nat.cast_pow, Nat.cast_ofNat, pow_zero, mul_one_div]

/-- The shortest decimal for a number is read back as the number. -/
theorem round_shortest {f : FloatFormat} (canonical : f.Canonical significand shift)
    (positive : 0 < significand)
    (bounded : shift * 2 ^ f.fractionBits + significand ≤ f.infinity) :
    (shortest f significand shift).round f = shift * 2 ^ f.fractionBits + significand := by
  have within := shortest_within f shift positive
  obtain ⟨n, k, pos, ratio, rounded⟩ := exists_ratio (shortest f significand shift)
  rw [ratio] at within
  rw [rounded, ofRatio_of_contains pos n canonical within, min_eq_left bounded]

/-- Only one decimal that is written for a single number is as near to a midpoint as a double can
be. -/
theorem shortest_far (canonical : binary32.Canonical significand shift) (bound : shift < 254)
    (odd : significand % 2 = 1) (usual : ¬ (significand = 11420669 ∧ shift = 42)) {m : Nat}
    (midpoint : m = 2 * significand - 1 ∨ m = 2 * significand + 1) :
    2 ^ shift / 2 ^ 179 <
      |((shortest binary32 significand shift).toRat - m * 2 ^ shift / 2 ^ 150 : ℚ)| := by
  have small : significand < 2 ^ 24 := canonical.small
  have within := shortest_within binary32 shift (by omega : 0 < significand)
  rw [around_contains_odd (by decide) odd] at within
  change (_ / 2 ^ 150 : ℚ) < _ ∧ _ < (_ / 2 ^ 150 : ℚ) at within
  have even : ¬ (significand = 2 ^ binary32.fractionBits ∧ 0 < shift) := by
    rintro ⟨rfl, -⟩
    exact absurd odd (by decide)
  have center := shortest_near (by omega) even
  change |_ - (significand * 2 ^ shift / 2 ^ 149 : ℚ)| ≤ _ at center
  have apart : (shortest binary32 significand shift).toRat ≠ m * 2 ^ shift / 2 ^ 150 := by
    rcases midpoint with rfl | rfl
    · exact within.1.ne'
    · exact within.2.ne
  rcases le_or_gt (8 * 10 ^ (shortest binary32 significand shift).exponent : ℚ)
    (7 * (2 ^ shift / 2 ^ 149)) with fine | coarse
  · -- The nearest point of a fine grid stays away from the midpoints.
    have spacing : (0 : ℚ) < 2 ^ shift / 2 ^ 149 := by positivity
    have tiny : (2 ^ shift / 2 ^ 179 : ℚ) = 2 ^ shift / 2 ^ 149 / 2 ^ 30 := by
      field_simp
    have closest := abs_le.1 center
    rw [tiny]
    rcases midpoint with rfl | rfl
    · have lower : ((2 * significand - 1 : Nat) * 2 ^ shift / 2 ^ 150 : ℚ) =
          significand * 2 ^ shift / 2 ^ 149 - 2 ^ shift / 2 ^ 149 / 2 := by
        rw [Nat.cast_sub (by omega), Nat.cast_mul, Nat.cast_ofNat, Nat.cast_one]
        field_simp
      rw [lower]
      refine lt_of_lt_of_le ?_ (le_abs_self _)
      linarith
    · have upper : ((2 * significand + 1 : Nat) * 2 ^ shift / 2 ^ 150 : ℚ) =
          significand * 2 ^ shift / 2 ^ 149 + 2 ^ shift / 2 ^ 149 / 2 := by
        rw [Nat.cast_add, Nat.cast_mul, Nat.cast_ofNat, Nat.cast_one]
        field_simp
      rw [upper]
      refine lt_of_lt_of_le ?_ (neg_le_abs _)
      linarith
  · by_contra! near
    rcases midpoint_of_near bound coarse (by omega) (by omega) near with equal | ⟨rfl, exception⟩
    · exact apart equal
    · omega

/-- The shortest decimal for a single number is narrowed to it from the double it is read as. -/
theorem convert_round_shortest (canonical : binary32.Canonical significand shift)
    (positive : 0 < significand) (bound : shift < 254)
    (usual : ¬ (significand = 11420669 ∧ shift = 42)) (negative : Bool) :
    binary64.convert binary32
        (binary64.withSign negative ((shortest binary32 significand shift).round binary64)) =
      binary32.withSign negative (shift * 2 ^ binary32.fractionBits + significand) := by
  have within := shortest_within binary32 shift positive
  have far := fun odd m => shortest_far canonical bound odd usual (m := m)
  obtain ⟨n, k, pos, ratio, rounded⟩ := exists_ratio (shortest binary32 significand shift)
  rw [ratio] at within far
  rw [rounded]
  have small : significand < 2 ^ 24 := canonical.small
  refine convert_of_contains (ofRatio_double_lt_infinity pos small bound within) canonical
    (double_contains pos canonical bound within far) ?_ negative
  change shift * 2 ^ 23 + significand ≤ 255 * 2 ^ 23
  omega

end Decimal

end BinaryXml
