import BinaryXml.Proofs.Rounding
import Mathlib.Algebra.Order.Field.Power
import Mathlib.Tactic.LinearCombination

/-!
# Decimals near midpoints

How close do the multiples of one number come to the multiples of another? Two neighbouring
fractions on either side of their ratio answer this up to the sum of their denominators: every pair
of multiples is a combination of the two, and only the multiples of one neighbour lie on one side.
Neighbours found for every spacing of the single format show that a decimal of about its precision
never comes closer to a midpoint than a double can tell, except once.
-/

namespace BinaryXml

-- Powers are those of `Nat` alone, whatever algebra is in scope.
attribute [local instance (high)] instPowNat

/-! ## Neighbouring fractions -/

/-- Counts of two numbers `a` and `b`: `above.1 * a` exceeds `above.2 * b`, and `below.1 * a` falls
short of `below.2 * b`. -/
structure Bracket where
  above : Nat × Nat
  below : Nat × Nat

namespace Bracket

variable {c : Bracket} {a b limit : Nat}

def excess (c : Bracket) (a b : Nat) : Int := c.above.1 * a - c.above.2 * b

def lack (c : Bracket) (a b : Nat) : Int := c.below.2 * b - c.below.1 * a

/-- A double tells numbers apart that are not as close as this. -/
def Near (b : Nat) (distance : Int) : Prop := 2 ^ 29 * distance ≤ b

instance (b : Nat) (distance : Int) : Decidable (Near b distance) :=
  inferInstanceAs (Decidable (_ ≤ _))

/-- The neighbours leave no multiples of `a` near those of `b` up to `limit * b`, but for multiples
of the neighbours themselves. -/
structure Separates (c : Bracket) (a b limit : Nat) : Prop where
  neighbours : c.above.1 * c.below.2 = c.below.1 * c.above.2 + 1
  excess_nonneg : 0 ≤ c.excess a b
  lack_nonneg : 0 ≤ c.lack a b
  beyond : limit * b < (c.above.1 + c.below.1) * a
  apart : ¬ Near b (c.excess a b + c.lack a b)
  single : c.excess a b = 0 ∨ ¬ Near b (c.excess a b)

instance (c : Bracket) (a b limit : Nat) : Decidable (c.Separates a b limit) :=
  decidable_of_iff
    (c.above.1 * c.below.2 = c.below.1 * c.above.2 + 1 ∧ 0 ≤ c.excess a b ∧ 0 ≤ c.lack a b ∧
      limit * b < (c.above.1 + c.below.1) * a ∧ ¬ Near b (c.excess a b + c.lack a b) ∧
      (c.excess a b = 0 ∨ ¬ Near b (c.excess a b)))
    ⟨fun ⟨h₁, h₂, h₃, h₄, h₅, h₆⟩ => ⟨h₁, h₂, h₃, h₄, h₅, h₆⟩,
      fun ⟨h₁, h₂, h₃, h₄, h₅, h₆⟩ => ⟨h₁, h₂, h₃, h₄, h₅, h₆⟩⟩

theorem Near.mono {x y : Int} (h : Near b y) (le : x ≤ y) : Near b x := by
  unfold Near at *
  omega

/-- Every pair of counts is a combination of the two neighbours. -/
theorem combination (neighbours : c.above.1 * c.below.2 = c.below.1 * c.above.2 + 1) (n m : Nat) :
    ∃ i j : Int, n = i * c.above.1 + j * c.below.1 ∧ m = i * c.above.2 + j * c.below.2 ∧
      (n * a - m * b : Int) = i * c.excess a b - j * c.lack a b := by
  have det : (c.above.1 * c.below.2 : Int) = c.below.1 * c.above.2 + 1 := by
    exact_mod_cast neighbours
  have first : (n : Int) = (n * c.below.2 - m * c.below.1) * c.above.1 +
      (m * c.above.1 - n * c.above.2) * c.below.1 := by
    linear_combination (-n : Int) * det
  have second : (m : Int) = (n * c.below.2 - m * c.below.1) * c.above.2 +
      (m * c.above.1 - n * c.above.2) * c.below.2 := by
    linear_combination (-m : Int) * det
  refine ⟨_, _, first, second, ?_⟩
  unfold excess lack
  linear_combination (a : Int) * first - (b : Int) * second

/-- Few multiples of `a` are near one of `b` below the limit. -/
theorem Separates.lt_of_near (h : c.Separates a b limit) {n m : Nat} (small : m < limit)
    (near : Near b |(n * a - m * b : Int)|) : n < c.above.1 + c.below.1 := by
  have beyond := h.beyond
  by_contra! many
  have counted := Nat.mul_le_mul_right a many
  have limited := Nat.mul_le_mul_right b small
  rw [Nat.succ_eq_add_one, Nat.succ_mul] at limited
  have close := near.mono (le_abs_self _)
  unfold Near at close
  push_cast at close
  zify at counted limited beyond
  omega

/-- Multiples that are near each other are equal, or those of the lower neighbour. -/
theorem Separates.eq_or_multiple (h : c.Separates a b limit) {n m : Nat} (pos : 0 < m)
    (small : m < limit) (near : Near b |(n * a - m * b : Int)|) :
    (n * a : Int) = m * b ∨
      (∃ j : Int, 0 < j ∧ m = j * c.below.2) ∧ Near b (c.lack a b) := by
  have few := h.lt_of_near small near
  obtain ⟨neighbours, excess_nonneg, lack_nonneg, -, apart, single⟩ := h
  obtain ⟨i, j, first, second, distance⟩ := combination neighbours n m (a := a) (b := b)
  rw [distance] at near
  generalize c.excess a b = excess at *
  generalize c.lack a b = lack at *
  have positive : 0 < i * c.above.2 + j * c.below.2 := by
    rw [← second]
    exact_mod_cast pos
  -- Counts of different sign are apart, and of the same sign too large.
  rcases lt_trichotomy i 0 with i_neg | rfl | i_pos
  · have j_pos : 0 < j := by
      by_contra! j_neg
      have := mul_nonpos_of_nonpos_of_nonneg i_neg.le (Int.natCast_nonneg c.above.2)
      have := mul_nonpos_of_nonpos_of_nonneg j_neg (Int.natCast_nonneg c.below.2)
      omega
    refine absurd (near.mono ?_) apart
    refine le_trans ?_ (neg_le_abs _)
    nlinarith
  · rw [Int.zero_mul, Int.zero_add] at positive second
    have j_pos : 0 < j := pos_of_mul_pos_left positive (Int.natCast_nonneg _)
    refine .inr ⟨⟨j, j_pos, second⟩, near.mono ?_⟩
    refine le_trans ?_ (neg_le_abs _)
    nlinarith
  · rcases lt_trichotomy j 0 with j_neg | rfl | j_pos
    · refine absurd (near.mono ?_) apart
      refine le_trans ?_ (le_abs_self _)
      nlinarith
    · rcases single with rfl | far
      · left
        linarith
      · refine absurd (near.mono ?_) far
        refine le_trans ?_ (le_abs_self _)
        nlinarith
    · have := le_mul_of_one_le_left (Int.natCast_nonneg c.above.1) i_pos
      have := le_mul_of_one_le_left (Int.natCast_nonneg c.below.1) j_pos
      omega

/-- Moves one neighbour towards the other, as far as counts of `a` up to `room` allow. -/
def narrow (a b room : Nat) : (steps : Nat) → Bracket → Bracket
  | 0, c => c
  | steps + 1, c =>
    if room < c.above.1 + c.below.1 then c
    else
      let excess := c.above.1 * a - c.above.2 * b
      let lack := c.below.2 * b - c.below.1 * a
      if excess = 0 then
        let times := (room - c.below.1) / c.above.1 + 1
        ⟨c.above, c.below.1 + times * c.above.1, c.below.2 + times * c.above.2⟩
      else if lack ≤ excess then
        let times := min (excess / lack) ((room - c.above.1) / c.below.1)
        narrow a b room steps
          ⟨⟨c.above.1 + times * c.below.1, c.above.2 + times * c.below.2⟩, c.below⟩
      else
        let times := min ((lack - 1) / excess) ((room - c.below.1) / c.above.1)
        narrow a b room steps
          ⟨c.above, c.below.1 + times * c.above.1, c.below.2 + times * c.above.2⟩

def search (a b limit : Nat) : Bracket :=
  narrow a b (limit * b / a) 24 ⟨⟨1, a / b⟩, ⟨0, 1⟩⟩

end Bracket

/-! ## Decimal grids beside binary ones -/

namespace Decimal

/-- The decimal grid beside the binary one of a spacing, counted from the forty-fifth place. -/
def grid (shift : Nat) : Nat := (shift * 30103 + 8854) / 100000 + 1

/-- Units of the decimal grid and of the midpoints in common units. -/
def decimalUnit (shift : Nat) : Nat := 10 ^ grid shift * 2 ^ 150

def binaryUnit (shift : Nat) : Nat := 2 ^ shift * 10 ^ 45

/-- Units of the next finer grid are less than seven eighths of the spacing. -/
theorem finer_grid : ∀ shift < 254,
    8 * (10 ^ (grid shift - 1) * 2 ^ 149) ≤ 7 * (2 ^ shift * 10 ^ 45) := by
  decide +kernel

/-- Neighbours are found for every spacing. One of them is near itself, at a single spacing. -/
theorem separates_grids : ∀ shift < 254,
    let c := Bracket.search (decimalUnit shift) (binaryUnit shift) (2 ^ 25)
    c.Separates (decimalUnit shift) (binaryUnit shift) (2 ^ 25) ∧
      (Bracket.Near (binaryUnit shift) (c.lack (decimalUnit shift) (binaryUnit shift)) →
        shift = 42 ∧ c.below.2 = 22841339) := by
  decide +kernel

theorem grid_le {shift : Nat} {e : Int} (bound : shift < 254)
    (coarse : (7 * (2 ^ shift / 2 ^ 149) : ℚ) < 8 * 10 ^ e) : (grid shift : Int) - 45 ≤ e := by
  by_contra! fine
  have power : (10 : ℚ) ^ e ≤ 10 ^ (grid shift - 1) / 10 ^ 45 := by
    have exponent : e ≤ ((grid shift - 1 : Nat) : Int) - (45 : Nat) := by
      unfold grid at *
      omega
    calc (10 : ℚ) ^ e ≤ 10 ^ (((grid shift - 1 : Nat) : Int) - (45 : Nat)) :=
          zpow_le_zpow_right₀ (by norm_num) exponent
      _ = 10 ^ (grid shift - 1) / 10 ^ 45 := by
          rw [zpow_sub₀ (by norm_num), zpow_natCast, zpow_natCast]
  have below : (8 * (10 ^ (grid shift - 1) * 2 ^ 149) : ℚ) ≤ 7 * (2 ^ shift * 10 ^ 45) := by
    exact_mod_cast finer_grid shift bound
  have scaled : (8 * (10 ^ (grid shift - 1) / 10 ^ 45) : ℚ) ≤ 7 * (2 ^ shift / 2 ^ 149) := by
    rw [← mul_div_assoc, ← mul_div_assoc, div_le_div_iff₀ (by positivity) (by positivity)]
    linarith
  linarith

/-- A decimal with units near the spacing of the single format is a midpoint, or not near any
midpoint, with one exception. -/
theorem midpoint_of_near {shift n m : Nat} {e : Int} (bound : shift < 254)
    (coarse : (7 * (2 ^ shift / 2 ^ 149) : ℚ) < 8 * 10 ^ e) (pos : 0 < m) (small : m < 2 ^ 25)
    (near : |(n * 10 ^ e - m * 2 ^ shift / 2 ^ 150 : ℚ)| ≤ 2 ^ shift / 2 ^ 179) :
    (n * 10 ^ e : ℚ) = m * 2 ^ shift / 2 ^ 150 ∨ shift = 42 ∧ m = 22841339 := by
  obtain ⟨k, exponent⟩ := Int.le.dest (grid_le bound coarse)
  obtain ⟨separates, exception⟩ := separates_grids shift bound
  -- Both numbers are counted in common units.
  have distance : (((n * 10 ^ k : Nat) * decimalUnit shift - m * binaryUnit shift : Int) : ℚ) =
      (n * 10 ^ e - m * 2 ^ shift / 2 ^ 150) * (2 ^ 150 * 10 ^ 45) := by
    rw [← exponent, zpow_add₀ (by norm_num), zpow_sub₀ (by norm_num), zpow_natCast, zpow_natCast,
      zpow_ofNat]
    simp only [decimalUnit, binaryUnit, Int.cast_sub, Int.cast_mul, Int.cast_natCast, Nat.cast_mul,
      Nat.cast_pow, Nat.cast_ofNat, Int.cast_pow, Int.cast_ofNat]
    field_simp
  have units : (0 : ℚ) < 2 ^ 150 * 10 ^ 45 := by positivity
  have counted : Bracket.Near (binaryUnit shift)
      |((n * 10 ^ k : Nat) * decimalUnit shift - m * binaryUnit shift : Int)| := by
    have unit : ((binaryUnit shift : Int) : ℚ) =
        2 ^ 29 * (2 ^ shift / 2 ^ 179 * (2 ^ 150 * 10 ^ 45)) := by
      simp only [binaryUnit, Nat.cast_mul, Nat.cast_pow, Nat.cast_ofNat, Int.cast_mul, Int.cast_pow,
        Int.cast_ofNat]
      field_simp
    unfold Bracket.Near
    rw [← Int.cast_le (R := ℚ), unit, Int.cast_mul, Int.cast_abs, distance, abs_mul,
      abs_of_pos units, Int.cast_pow, Int.cast_ofNat]
    gcongr
  rcases separates.eq_or_multiple pos small counted with equal | ⟨⟨j, j_pos, multiple⟩, close⟩
  · left
    have none : ((n * 10 ^ e - m * 2 ^ shift / 2 ^ 150) * (2 ^ 150 * 10 ^ 45) : ℚ) = 0 := by
      rw [← distance, equal, sub_self, Int.cast_zero]
    exact sub_eq_zero.1 ((mul_eq_zero_iff_right units.ne').1 none)
  · right
    obtain ⟨rfl, count⟩ := exception close
    refine ⟨rfl, ?_⟩
    rw [count] at multiple
    have once : j = 1 := by omega
    omega

end Decimal

end BinaryXml
