import BinaryXml.Proofs.Rounding
import Mathlib.Algebra.Order.Field.Power

/-!
# Shortest decimals

The decimal number that is written lies among those that read back as the number, wherever the
search for it ends. On the grid of its last digit no whole number is nearer, unless the spacing
changes at the number itself.
-/

namespace BinaryXml

-- Powers are those of `Nat` alone, whatever algebra is in scope.
attribute [local instance (high)] instPowNat

namespace Decimal

def toRat (d : Decimal) : ℚ := d.digits * 10 ^ d.exponent

theorem ten_zpow (e : ℤ) : (10 : ℚ) ^ e = 10 ^ e.toNat / 10 ^ (-e).toNat := by
  rcases Int.le_total 0 e with front | back
  · obtain ⟨k, rfl⟩ := Int.eq_ofNat_of_zero_le front
    simp
  · obtain ⟨k, rfl⟩ := Int.exists_eq_neg_ofNat back
    simp

namespace Interval

variable {i : Interval} {n : Nat}

/-- Both kinds of exponents at once; one of the powers is one. -/
theorem scaled_eq (i : Interval) (e : Int) : i.scaled e =
    ⟨i.low * 10 ^ (-e).toNat, i.center * 10 ^ (-e).toNat, i.high * 10 ^ (-e).toNat,
      i.unit * 10 ^ e.toNat, i.closed⟩ := by
  unfold scaled
  split
  next front =>
    have none : (-e).toNat = 0 := by omega
    rw [none, Nat.pow_zero, Nat.mul_one, Nat.mul_one, Nat.mul_one]
  next back =>
    have none : e.toNat = 0 := by omega
    rw [none, Nat.pow_zero, Nat.mul_one]

theorem holds_iff (i : Interval) (n : Nat) : i.holds n = true ↔
    if i.closed then i.low ≤ n * i.unit ∧ n * i.unit ≤ i.high
    else i.low < n * i.unit ∧ n * i.unit < i.high := by
  unfold holds
  cases i.closed <;> simp

/-- A whole number on the grid lies in the interval. -/
theorem contains_of_holds {e : Int} (h : (i.scaled e).holds n = true) :
    i.Contains (n * 10 ^ e) := by
  have grid : (0 : ℚ) < 10 ^ (-e).toNat := by positivity
  have point : (n * 10 ^ e : ℚ) * i.unit * 10 ^ (-e).toNat =
      ((n * (i.unit * 10 ^ e.toNat) : Nat) : ℚ) := by
    rw [ten_zpow]
    push_cast
    field_simp
  rw [holds_iff, scaled_eq] at h
  unfold Contains
  dsimp only at h
  split at h
  next closed =>
    rw [if_pos closed, ← mul_le_mul_iff_left₀ grid, point,
      ← mul_le_mul_iff_left₀ grid (b := (n * 10 ^ e : ℚ) * i.unit), point]
    exact_mod_cast h
  next opened =>
    rw [if_neg opened, ← mul_lt_mul_iff_left₀ grid, point,
      ← mul_lt_mul_iff_left₀ grid (b := (n * 10 ^ e : ℚ) * i.unit), point]
    exact_mod_cast h

theorem holds_of_nearest? (h : i.nearest? = some n) : i.holds n = true := by
  unfold nearest? at h
  dsimp only at h
  split at h
  case h_1 => cases h
  case h_2 low _ => cases h; exact low
  case h_3 _ high => cases h; exact high
  case h_4 low high =>
      cases h
      split
      · exact low
      · exact high

/-- In an interval with its center in the middle, what is as near to the center as a number of the
interval, on the other side, is in the interval as well. -/
theorem holds_above {m : Nat} (middle : i.low + i.high = 2 * i.center)
    (above : i.center ≤ m * i.unit) (near : m * i.unit + n * i.unit ≤ 2 * i.center)
    (h : i.holds n = true) : i.holds m = true := by
  rw [holds_iff] at h ⊢
  split at h <;> rename_i kind
  · rw [if_pos kind]
    omega
  · rw [if_neg kind]
    omega

theorem holds_below {m : Nat} (middle : i.low + i.high = 2 * i.center)
    (below : n * i.unit ≤ i.center) (near : 2 * i.center ≤ m * i.unit + n * i.unit)
    (h : i.holds m = true) : i.holds n = true := by
  rw [holds_iff] at h ⊢
  split at h <;> rename_i kind
  · rw [if_pos kind]
    omega
  · rw [if_neg kind]
    omega

/-- In an interval with its center in the middle, the whole number that is nearest to the center
is found. -/
theorem nearest?_near (middle : i.low + i.high = 2 * i.center) (pos : 0 < i.unit)
    (h : i.nearest? = some n) :
    2 * (n * i.unit) ≤ 2 * i.center + i.unit ∧ 2 * i.center ≤ 2 * (n * i.unit) + i.unit := by
  have whole := Nat.div_add_mod' i.center i.unit
  have part := Nat.mod_lt i.center pos
  have step : (i.center / i.unit + 1) * i.unit = i.center / i.unit * i.unit + i.unit :=
    Nat.succ_mul _ _
  unfold nearest? at h
  dsimp only at h
  split at h
  case h_1 => cases h
  case h_2 low high =>
      cases h
      by_contra far
      have reached := holds_above (m := i.center / i.unit + 1) middle (by omega) (by omega) low
      rw [high] at reached
      cases reached
  case h_3 low high =>
      cases h
      by_contra far
      have reached := holds_below (n := i.center / i.unit) middle (by omega) (by omega) high
      rw [low] at reached
      cases reached
  case h_4 =>
      cases h
      split <;> omega

/-! ## The search -/

/-- The search ends on a grid with a point in the interval, or on the last grid. -/
theorem search_cases (i : Interval) (steps : Nat) (e : Int) : let d := i.search steps e;
    (i.scaled d.exponent).nearest? = some d.digits ∨
      d.exponent = e - steps ∧
        d.digits = (i.scaled d.exponent).center / (i.scaled d.exponent).unit := by
  induction steps generalizing e with
  | zero => exact .inr ⟨(Int.sub_zero e).symm, rfl⟩
  | succ steps ih =>
      unfold search
      split
      next found => exact .inl found
      next =>
        refine (ih (e - 1)).imp_right fun last => ?_
        rw [last.1]
        exact ⟨by omega, last.1 ▸ last.2⟩

end Interval

section Shortest

variable {f : FloatFormat} {significand shift : Nat}

/-- The last grid has the number itself. -/
theorem shortest_cases (f : FloatFormat) (significand shift : Nat) :
    let d := shortest f significand shift
    ((Interval.around f significand shift).scaled d.exponent).nearest? = some d.digits ∨
      d.toRat = significand * 2 ^ shift / 2 ^ f.scale := by
  refine (Interval.search_cases _ _ _).imp_right fun ⟨last, point⟩ => ?_
  have grid : (shortest f significand shift).exponent = -(f.scale : Int) := by
    rw [shortest, last]
    omega
  have digits : (shortest f significand shift).digits = significand * 2 ^ shift * 5 ^ f.scale := by
    refine point.trans ?_
    change
      ((Interval.around f significand shift).scaled
        (shortest f significand shift).exponent).center /
      ((Interval.around f significand shift).scaled
        (shortest f significand shift).exponent).unit = _
    have ten : 10 ^ f.scale = 5 ^ f.scale * 2 ^ f.scale := (Nat.mul_pow 5 2 f.scale)
    rw [Interval.scaled_eq, grid, Int.neg_neg, Int.toNat_natCast]
    have zero : (-(f.scale : Int)).toNat = 0 := by omega
    rw [zero, Nat.pow_zero, Nat.mul_one]
    simp only [Interval.around]
    refine Nat.div_eq_of_eq_mul_left (by positivity) ?_
    rw [ten]
    ring
  rw [toRat, grid, digits, zpow_neg, zpow_natCast]
  have ten : (10 : ℚ) ^ f.scale = 5 ^ f.scale * 2 ^ f.scale := by
    rw [← mul_pow]
    norm_num
  rw [ten]
  push_cast
  field_simp

theorem around_contains_center (pos : 0 < significand) :
    (Interval.around f significand shift).Contains (significand * 2 ^ shift / 2 ^ f.scale) := by
  have low : (Interval.around f significand shift).low < 4 * significand * 2 ^ shift := by
    refine Nat.mul_lt_mul_of_pos_right ?_ (Nat.two_pow_pos _)
    split <;> omega
  have high : 4 * significand * 2 ^ shift < (Interval.around f significand shift).high :=
    Nat.mul_lt_mul_of_pos_right (by omega) (Nat.two_pow_pos _)
  have center : (significand * 2 ^ shift / 2 ^ f.scale : ℚ) *
      (Interval.around f significand shift).unit = (4 * significand * 2 ^ shift : Nat) := by
    simp only [Interval.around]
    push_cast
    field_simp
  unfold Interval.Contains
  rw [center]
  split
  · exact_mod_cast And.intro low.le high.le
  · exact_mod_cast And.intro low high

/-- What is written reads back as the number. -/
theorem shortest_within (f : FloatFormat) (shift : Nat) (pos : 0 < significand) :
    (Interval.around f significand shift).Contains (shortest f significand shift).toRat := by
  rcases shortest_cases f significand shift with found | exact
  · exact Interval.contains_of_holds (Interval.holds_of_nearest? found)
  · rw [exact]
    exact around_contains_center pos

/-- Half a unit of the last digit bounds the distance to the number, unless the spacing changes at
the number. -/
theorem shortest_near (pos : 0 < significand)
    (even : ¬ (significand = 2 ^ f.fractionBits ∧ 0 < shift)) :
    let d := shortest f significand shift;
    |d.toRat - significand * 2 ^ shift / 2 ^ f.scale| ≤ 10 ^ d.exponent / 2 := by
  rcases shortest_cases f significand shift with found | exact
  · intro d
    change Interval.nearest? (Interval.scaled _ d.exponent) = some d.digits at found
    have middle : (4 * significand - 2) * 2 ^ shift + (4 * significand + 2) * 2 ^ shift =
        2 * (4 * significand * 2 ^ shift) := by
      rw [← Nat.add_mul, ← Nat.mul_assoc 2]
      congr 1
      omega
    have near := Interval.nearest?_near ?_ ?_ found
    · rw [Interval.scaled_eq] at near
      simp only [Interval.around] at near
      have grid : (0 : ℚ) < 10 ^ (-d.exponent).toNat := by positivity
      have least : (0 : ℚ) < 2 ^ f.scale := by positivity
      have step : (10 : ℚ) ^ d.exponent.toNat = 10 ^ d.exponent * 10 ^ (-d.exponent).toNat := by
        rw [ten_zpow d.exponent, div_mul_cancel₀ _ grid.ne']
      have value : (significand * 2 ^ shift : ℚ) =
          significand * 2 ^ shift / 2 ^ f.scale * 2 ^ f.scale := by
        rw [div_mul_cancel₀ _ least.ne']
      rw [Nat.mul_assoc 4 significand] at near
      have low := (Nat.cast_le (α := ℚ)).2 near.1
      have high := (Nat.cast_le (α := ℚ)).2 near.2
      simp only [Nat.cast_mul, Nat.cast_add, Nat.cast_pow, Nat.cast_ofNat] at low high
      rw [value, step] at low high
      generalize (significand * 2 ^ shift / 2 ^ f.scale : ℚ) = v at *
      have unit : (0 : ℚ) < 8 * 2 ^ f.scale * 10 ^ (-d.exponent).toNat := by positivity
      rw [toRat, abs_le]
      constructor
      · refine le_of_mul_le_mul_right ?_ unit
        linarith
      · refine le_of_mul_le_mul_right ?_ unit
        linarith
    · rw [Interval.scaled_eq]
      simp only [Interval.around, if_neg even]
      rw [← Nat.add_mul, middle, Nat.mul_assoc]
    · rw [Interval.scaled_eq]
      simp only [Interval.around]
      positivity
  · dsimp only
    rw [exact, sub_self, abs_zero]
    positivity

end Shortest

end Decimal

end BinaryXml
