import BinaryXml.DecimalText
import Mathlib.Data.Rat.Cast.Order
import Mathlib.Tactic.Linarith
import Mathlib.Tactic.Positivity
import Mathlib.Tactic.FieldSimp
import Mathlib.Tactic.Ring

/-!
# Rounding to a format

The positions of a format are its magnitudes in order. Rounding a ratio finds the position nearest
to it: no other magnitude of the format is nearer, and a position is found from every ratio that
lies between the midpoints to its neighbours.
-/

namespace BinaryXml

-- Powers are those of `Nat` alone, whatever algebra is in scope.
attribute [local instance (high)] instPowNat

/-- The rational number lies in the interval. -/
def Decimal.Interval.Contains (i : Interval) (x : ℚ) : Prop :=
  if i.closed then (i.low : ℚ) ≤ x * i.unit ∧ x * i.unit ≤ i.high
  else (i.low : ℚ) < x * i.unit ∧ x * i.unit < i.high

namespace FloatFormat

/-! ## Rounding to whole numbers -/

section WholeNumbers

variable {n d r : Nat} (pos : 0 < d)

include pos

theorem roundHalfEven_near (n : Nat) : let r := roundHalfEven n d;
    2 * (r * d) ≤ 2 * n + d ∧ 2 * n ≤ 2 * (r * d) + d := by
  have whole := Nat.div_add_mod n d
  have part := Nat.mod_lt n pos
  unfold roundHalfEven
  generalize n / d = q at *
  generalize n % d = m at *
  have swap : d * q = q * d := Nat.mul_comm d q
  have up : (q + 1) * d = q * d + d := Nat.succ_mul q d
  dsimp only
  split
  · omega
  · split
    · omega
    · rcases Nat.mod_two_eq_zero_or_one q with even | odd
      · rw [even, Nat.add_zero]
        omega
      · rw [odd]
        omega

theorem roundHalfEven_eq (low : 2 * (r * d) ≤ 2 * n + d) (high : 2 * n ≤ 2 * (r * d) + d)
    (strict : r % 2 = 1 → 2 * (r * d) < 2 * n + d ∧ 2 * n < 2 * (r * d) + d) :
    roundHalfEven n d = r := by
  have whole := Nat.div_add_mod n d
  have part := Nat.mod_lt n pos
  unfold roundHalfEven
  generalize n / d = q at *
  generalize n % d = m at *
  have swap : d * q = q * d := Nat.mul_comm d q
  have up : (q + 1) * d = q * d + d := Nat.succ_mul q d
  have least : q ≤ r := by
    by_contra! far
    have below := Nat.mul_le_mul_right d far
    rw [Nat.succ_eq_add_one, Nat.succ_mul] at below
    omega
  have most : r ≤ q + 1 := by
    by_contra! far
    have above := Nat.mul_le_mul_right d far
    rw [Nat.succ_eq_add_one, Nat.succ_mul] at above
    omega
  dsimp only
  obtain rfl | rfl : r = q ∨ r = q + 1 := by omega
  · split
    · rfl
    · split <;> omega
  · split
    · omega
    · split <;> omega

theorem roundHalfEven_le (h : n ≤ r * d) : roundHalfEven n d ≤ r := by
  obtain ⟨low, -⟩ := roundHalfEven_near pos n
  by_contra! far
  have above := Nat.mul_le_mul_right d far
  rw [Nat.succ_eq_add_one, Nat.succ_mul] at above
  omega

theorem le_roundHalfEven (h : r * d ≤ n) : r ≤ roundHalfEven n d := by
  obtain ⟨-, high⟩ := roundHalfEven_near pos n
  by_contra! far
  have below := Nat.mul_le_mul_right d far
  rw [Nat.succ_eq_add_one, Nat.succ_mul] at below
  omega

theorem abs_roundHalfEven_sub_le (n : Nat) : |(roundHalfEven n d : ℚ) - n / d| ≤ 1 / 2 := by
  obtain ⟨low, high⟩ := roundHalfEven_near pos n
  have pos' : (0 : ℚ) < d := by exact_mod_cast pos
  have low' : 2 * ((roundHalfEven n d : ℚ) * d) ≤ 2 * n + d := by exact_mod_cast low
  have high' : (2 : ℚ) * n ≤ 2 * (roundHalfEven n d * d) + d := by exact_mod_cast high
  have scaled : (n : ℚ) / d * d = n := div_mul_cancel₀ _ pos'.ne'
  rw [abs_le]
  constructor <;> nlinarith

/-- No whole number is nearer. -/
theorem roundHalfEven_nearest (n : Nat) (j : Nat) :
    |(roundHalfEven n d : ℚ) - n / d| ≤ |(j : ℚ) - n / d| := by
  have near := abs_roundHalfEven_sub_le pos n
  rcases eq_or_ne j (roundHalfEven n d) with rfl | other
  · exact le_rfl
  · have apart : (1 : ℚ) ≤ |(j : ℚ) - roundHalfEven n d| := by
      exact_mod_cast Int.one_le_abs (sub_ne_zero.2 (Int.ofNat_inj.not.2 other))
    have between := abs_sub_le (j : ℚ) (n / d) (roundHalfEven n d)
    rw [abs_sub_comm ((n : ℚ) / d)] at between
    linarith

end WholeNumbers

/-! ## Positions -/

variable {f : FloatFormat} {significand shift position : Nat}

/-- Every position but those of the least spacing has a full significand. -/
structure Canonical (f : FloatFormat) (significand shift : Nat) : Prop where
  small : significand < 2 ^ (f.fractionBits + 1)
  full : 0 < shift → 2 ^ f.fractionBits ≤ significand

def significandAt (f : FloatFormat) (position : Nat) : Nat :=
  if position / 2 ^ f.fractionBits = 0 then position
  else 2 ^ f.fractionBits + position % 2 ^ f.fractionBits

def shiftAt (f : FloatFormat) (position : Nat) : Nat := position / 2 ^ f.fractionBits - 1

/-- The magnitude at a position. -/
def magnitude (f : FloatFormat) (position : Nat) : ℚ :=
  f.significandAt position * 2 ^ f.shiftAt position / 2 ^ f.scale

theorem canonical_at (f : FloatFormat) (position : Nat) :
    f.Canonical (f.significandAt position) (f.shiftAt position) := by
  have part := Nat.mod_lt position (Nat.two_pow_pos f.fractionBits)
  unfold significandAt shiftAt
  split
  next zero =>
    have small := (Nat.div_eq_zero_iff_lt (Nat.two_pow_pos _)).1 zero
    exact ⟨by rw [Nat.pow_succ]; omega, by omega⟩
  next => exact ⟨by rw [Nat.pow_succ]; omega, by omega⟩

theorem position_eq (f : FloatFormat) (position : Nat) :
    f.shiftAt position * 2 ^ f.fractionBits + f.significandAt position = position := by
  have whole := Nat.div_add_mod' position (2 ^ f.fractionBits)
  unfold significandAt shiftAt
  split
  next zero => rw [zero, Nat.zero_sub, Nat.zero_mul, Nat.zero_add]
  next some =>
    obtain ⟨k, eq⟩ := Nat.exists_eq_succ_of_ne_zero some
    rw [eq, Nat.succ_eq_add_one, Nat.succ_mul] at whole
    rw [eq, Nat.succ_eq_add_one, Nat.add_sub_cancel]
    omega

theorem Canonical.at_position (canonical : f.Canonical significand shift) :
    f.significandAt (shift * 2 ^ f.fractionBits + significand) = significand ∧
      f.shiftAt (shift * 2 ^ f.fractionBits + significand) = shift := by
  obtain ⟨small, full⟩ := canonical
  have pos := Nat.two_pow_pos f.fractionBits
  rw [Nat.pow_succ] at small
  unfold significandAt shiftAt
  generalize 2 ^ f.fractionBits = p at *
  rw [Nat.mul_comm shift, Nat.mul_add_div pos, Nat.mul_add_mod]
  rcases Nat.lt_or_ge significand p with low | high
  · have none : shift = 0 := by omega
    subst none
    rw [Nat.div_eq_of_lt low]
    exact ⟨by rw [if_pos rfl, Nat.mul_zero, Nat.zero_add], rfl⟩
  · have one : significand / p = 1 := Nat.div_eq_of_lt_le (by omega) (by omega)
    have part : significand % p = significand - p := by
      rw [Nat.mod_eq_sub_mod high, Nat.mod_eq_of_lt (by omega)]
    rw [one, part, if_neg (Nat.succ_ne_zero _)]
    exact ⟨Nat.add_sub_cancel' high, rfl⟩

theorem Canonical.magnitude_position (canonical : f.Canonical significand shift) :
    f.magnitude (shift * 2 ^ f.fractionBits + significand) =
      significand * 2 ^ shift / 2 ^ f.scale := by
  rw [magnitude, canonical.at_position.1, canonical.at_position.2]

/-- A significand that is rounded up to the next power of two gives the next spacing. -/
theorem magnitude_of_le (small : significand ≤ 2 ^ (f.fractionBits + 1))
    (full : 0 < shift → 2 ^ f.fractionBits ≤ significand) :
    f.magnitude (shift * 2 ^ f.fractionBits + significand) =
      significand * 2 ^ shift / 2 ^ f.scale := by
  rcases Nat.lt_or_eq_of_le small with below | rfl
  · exact Canonical.magnitude_position ⟨below, full⟩
  · have next : f.Canonical (2 ^ f.fractionBits) (shift + 1) :=
      ⟨Nat.pow_lt_pow_right (by decide) (Nat.lt_succ_self _), fun _ => le_rfl⟩
    have same : shift * 2 ^ f.fractionBits + 2 ^ (f.fractionBits + 1) =
        (shift + 1) * 2 ^ f.fractionBits + 2 ^ f.fractionBits := by
      rw [Nat.pow_succ, Nat.succ_mul]
      omega
    rw [same, next.magnitude_position]
    push_cast
    ring

theorem infinity_lt_signBit (f : FloatFormat) : f.infinity < f.signBit := by
  rw [infinity, signBit, Nat.pow_add, Nat.mul_comm (2 ^ f.fractionBits)]
  exact Nat.mul_lt_mul_of_pos_right (Nat.sub_lt (Nat.two_pow_pos _) Nat.one_pos)
    (Nat.two_pow_pos _)

theorem withSign_parts (negative : Bool) (small : position < f.signBit) :
    decide (f.signBit ≤ f.withSign negative position) = negative ∧
      f.withSign negative position % f.signBit = position := by
  cases negative with
  | false => exact ⟨decide_eq_false (Nat.not_le.2 small), Nat.mod_eq_of_lt small⟩
  | true =>
      rw [withSign, if_pos rfl, Nat.add_mod_left, Nat.mod_eq_of_lt small]
      exact ⟨decide_eq_true (Nat.le_add_right _ _), rfl⟩

theorem value_withSign (negative : Bool) (finite : position < f.infinity) :
    f.value (f.withSign negative position) =
      .finite negative (f.significandAt position) (f.shiftAt position) := by
  obtain ⟨sign, magnitude⟩ :=
    withSign_parts negative (Nat.lt_trans finite f.infinity_lt_signBit)
  rw [value, sign, magnitude, if_neg (Nat.not_lt.2 finite.le), if_neg finite.ne]
  unfold significandAt shiftAt
  split
  next zero =>
    have small := (Nat.div_eq_zero_iff_lt (Nat.two_pow_pos _)).1 zero
    rw [if_pos zero, Nat.mod_eq_of_lt small, zero]
  next some => rw [if_neg some]

theorem value_withSign_infinity (negative : Bool) :
    f.value (f.withSign negative f.infinity) = .infinite negative := by
  obtain ⟨sign, magnitude⟩ := withSign_parts negative f.infinity_lt_signBit
  rw [value, sign, magnitude, if_neg (Nat.lt_irrefl _), if_pos rfl]

/-! ## Rounding to positions -/

/-- A finer magnitude lies below the least one of a spacing. -/
theorem finer_le {m t shift : Nat} (small : m < 2 ^ (f.fractionBits + 1)) (fine : t < shift) :
    (m * 2 ^ t / 2 ^ f.scale : ℚ) ≤
      ((2 ^ f.fractionBits : Nat) : ℚ) * 2 ^ shift / 2 ^ f.scale := by
  have counted : m * 2 ^ t ≤ 2 ^ f.fractionBits * 2 ^ shift := by
    calc m * 2 ^ t ≤ 2 ^ (f.fractionBits + 1) * 2 ^ t := Nat.mul_le_mul_right _ small.le
      _ = 2 ^ f.fractionBits * 2 ^ (t + 1) := by
        rw [Nat.pow_succ, Nat.pow_succ, Nat.mul_assoc, Nat.mul_comm 2]
      _ ≤ 2 ^ f.fractionBits * 2 ^ shift :=
        Nat.mul_le_mul_left _ (Nat.pow_le_pow_right Nat.two_pos fine)
  refine div_le_div_of_nonneg_right ?_ (by positivity)
  exact_mod_cast counted

section Ratios

variable {d : Nat} (pos : 0 < d) (n : Nat)

include pos

/-- A ratio is rounded at the spacing of the magnitudes around it. -/
theorem ofRatio_eq (f : FloatFormat) : ∃ shift,
    f.ofRatio n d = min (shift * 2 ^ f.fractionBits +
      roundHalfEven (n * 2 ^ f.scale) (d * 2 ^ shift)) f.infinity ∧
    n * 2 ^ f.scale < 2 ^ (f.fractionBits + 1) * (d * 2 ^ shift) ∧
    (0 < shift → 2 ^ f.fractionBits * (d * 2 ^ shift) ≤ n * 2 ^ f.scale) := by
  have assoc (k shift : Nat) : 2 ^ k * (d * 2 ^ shift) = 2 ^ (k + shift) * d := by
    rw [Nat.mul_comm d, ← Nat.mul_assoc, Nat.pow_add]
  refine ⟨_, rfl, ?_, ?_⟩
  · rw [assoc, ← Nat.div_lt_iff_lt_mul pos]
    refine Nat.lt_of_lt_of_le Nat.lt_log2_self (Nat.pow_le_pow_right Nat.two_pos ?_)
    omega
  · intro some
    rw [assoc, ← Nat.le_div_iff_mul_le pos]
    have large : (n * 2 ^ f.scale / d).log2 ≠ 0 := by omega
    refine Nat.le_trans (Nat.pow_le_pow_right Nat.two_pos (by omega : _ ≤ Nat.log2 _))
      (Nat.log2_self_le ?_)
    intro zero
    exact large (by rw [zero]; rfl)

/-- The distance to a ratio, counted in units of the spacing at which it is rounded. -/
theorem abs_sub_ratio (f : FloatFormat) (shift : Nat) (a : ℚ) :
    |a * 2 ^ shift / 2 ^ f.scale - n / d| =
      |a - ((n * 2 ^ f.scale : Nat) : ℚ) / (d * 2 ^ shift : Nat)| * (2 ^ shift / 2 ^ f.scale) := by
  have posQ : (0 : ℚ) < d := by exact_mod_cast pos
  have unit : (0 : ℚ) < 2 ^ shift / 2 ^ f.scale := by positivity
  have same : a * 2 ^ shift / 2 ^ f.scale - n / d =
      (a - ((n * 2 ^ f.scale : Nat) : ℚ) / (d * 2 ^ shift : Nat)) * (2 ^ shift / 2 ^ f.scale) := by
    push_cast
    field_simp
  rw [same, abs_mul, abs_of_pos unit]

/-- No magnitude of the format is nearer to a ratio than the one that it is rounded to. -/
theorem ofRatio_nearest (finite : f.ofRatio n d < f.infinity) {m : Nat}
    (small : m < 2 ^ (f.fractionBits + 1)) (t : Nat) :
    |f.magnitude (f.ofRatio n d) - n / d| ≤ |(m * 2 ^ t / 2 ^ f.scale : ℚ) - n / d| := by
  obtain ⟨shift, eq, above, below⟩ := ofRatio_eq pos n f
  have unitPos : 0 < d * 2 ^ shift := Nat.mul_pos pos (Nat.two_pow_pos _)
  have nearest := roundHalfEven_nearest unitPos (n * 2 ^ f.scale)
  have most := roundHalfEven_le unitPos above.le
  have least (some : 0 < shift) := le_roundHalfEven unitPos (below some)
  generalize roundHalfEven (n * 2 ^ f.scale) (d * 2 ^ shift) = r at eq nearest most least
  have value : f.magnitude (f.ofRatio n d) = r * 2 ^ shift / 2 ^ f.scale := by
    rw [eq] at finite ⊢
    rw [min_eq_left (by omega), magnitude_of_le most least]
  have posQ : (0 : ℚ) < d := by exact_mod_cast pos
  rw [value]
  rcases Nat.lt_or_ge t shift with fine | coarse
  · -- A finer magnitude lies below the least of this spacing, which lies below the ratio.
    have power : ((2 ^ f.fractionBits : Nat) : ℚ) * 2 ^ shift / 2 ^ f.scale ≤ n / d := by
      have below' : ((2 ^ f.fractionBits : Nat) : ℚ) * (d * 2 ^ shift) ≤ n * 2 ^ f.scale := by
        exact_mod_cast below (by omega)
      rw [div_le_div_iff₀ (by positivity) posQ]
      linarith
    have finer := finer_le (f := f) small fine
    calc |(r * 2 ^ shift / 2 ^ f.scale : ℚ) - n / d|
        ≤ |((2 ^ f.fractionBits : Nat) : ℚ) * 2 ^ shift / 2 ^ f.scale - n / d| := by
          rw [abs_sub_ratio pos, abs_sub_ratio pos]
          exact mul_le_mul_of_nonneg_right (nearest _) (by positivity)
      _ ≤ |(m * 2 ^ t / 2 ^ f.scale : ℚ) - n / d| := by
          rw [abs_of_nonpos (by linarith), abs_of_nonpos (by linarith)]
          linarith
  · obtain ⟨k, rfl⟩ := Nat.exists_eq_add_of_le coarse
    have point : (m * 2 ^ (shift + k) / 2 ^ f.scale : ℚ) =
        ((m * 2 ^ k : Nat) : ℚ) * 2 ^ shift / 2 ^ f.scale := by
      push_cast
      ring
    rw [point, abs_sub_ratio pos, abs_sub_ratio pos]
    exact mul_le_mul_of_nonneg_right (nearest _) (by positivity)

theorem contains_iff_nat (i : Decimal.Interval) : i.Contains (n / d) ↔
    if i.closed then i.low * d ≤ n * i.unit ∧ n * i.unit ≤ i.high * d
    else i.low * d < n * i.unit ∧ n * i.unit < i.high * d := by
  have posQ : (0 : ℚ) < d := by exact_mod_cast pos
  unfold Decimal.Interval.Contains
  rw [div_mul_eq_mul_div, le_div_iff₀ posQ, div_le_iff₀ posQ, lt_div_iff₀ posQ, div_lt_iff₀ posQ]
  norm_cast

/-- The bounds of the interval around a number, in units of its spacing. -/
theorem around_bounds (within : (Decimal.Interval.around f significand shift).Contains (n / d)) :
    let gap := if significand = 2 ^ f.fractionBits ∧ 0 < shift then 1 else 2
    let unit := d * 2 ^ shift
    4 * (significand * unit) ≤ 4 * (n * 2 ^ f.scale) + gap * unit ∧
      4 * (n * 2 ^ f.scale) ≤ 4 * (significand * unit) + 2 * unit ∧
      (significand % 2 = 1 → 4 * (significand * unit) < 4 * (n * 2 ^ f.scale) + gap * unit ∧
        4 * (n * 2 ^ f.scale) < 4 * (significand * unit) + 2 * unit) := by
  rw [contains_iff_nat pos] at within
  simp only [Decimal.Interval.around, decide_eq_true_eq] at within
  intro gap unit
  change if _ then (4 * significand - gap) * 2 ^ shift * d ≤ _ ∧ _ else
    (4 * significand - gap) * 2 ^ shift * d < _ ∧ _ at within
  have low : (4 * significand - gap) * 2 ^ shift * d =
      4 * (significand * unit) - gap * unit := by
    rw [Nat.mul_assoc, Nat.mul_comm (2 ^ shift), Nat.sub_mul, Nat.mul_assoc 4]
  have high : (4 * significand + 2) * 2 ^ shift * d = 4 * (significand * unit) + 2 * unit := by
    rw [Nat.mul_assoc, Nat.mul_comm (2 ^ shift), Nat.add_mul, Nat.mul_assoc 4]
  have point : n * (4 * 2 ^ f.scale) = 4 * (n * 2 ^ f.scale) := by
    rw [← Nat.mul_assoc, Nat.mul_comm n, Nat.mul_assoc]
  rw [low, high, point] at within
  split at within <;> omega

omit pos in
theorem two_pow_mul_le {i j k : Nat} (h : i + j ≤ k) : 2 ^ i * (d * 2 ^ j) ≤ d * 2 ^ k := by
  rw [Nat.mul_left_comm, ← Nat.pow_add]
  exact Nat.mul_le_mul_left _ (Nat.pow_le_pow_right Nat.two_pos h)

/-- The spacing around a ratio is not wider than at the position that it lies around. -/
theorem spacing_le {found scaled : Nat} (canonical : f.Canonical significand shift)
    (high : 4 * scaled ≤ 4 * (significand * (d * 2 ^ shift)) + 2 * (d * 2 ^ shift))
    (below : 0 < found → 2 ^ f.fractionBits * (d * 2 ^ found) ≤ scaled) : found ≤ shift := by
  by_contra! wider
  have double := Nat.mul_le_mul_left (2 ^ f.fractionBits)
    (two_pow_mul_le (by omega) : 2 ^ 1 * (d * 2 ^ shift) ≤ d * 2 ^ found)
  rw [Nat.pow_one] at double
  have most := Nat.mul_le_mul_right (d * 2 ^ shift) canonical.small
  rw [Nat.succ_eq_add_one, Nat.succ_mul, Nat.pow_succ, Nat.mul_assoc] at most
  have positive : 0 < d * 2 ^ shift := Nat.mul_pos pos (Nat.two_pow_pos shift)
  have least := below (by omega)
  omega

/-- It is narrower only just below a power of two. -/
theorem spacing_lt {found scaled : Nat} (canonical : f.Canonical significand shift)
    (low : 4 * (significand * (d * 2 ^ shift)) ≤ 4 * scaled +
      (if significand = 2 ^ f.fractionBits ∧ 0 < shift then 1 else 2) * (d * 2 ^ shift))
    (above : scaled < 2 ^ (f.fractionBits + 1) * (d * 2 ^ found)) (narrower : found < shift) :
    significand = 2 ^ f.fractionBits ∧ shift = found + 1 := by
  have positive : 0 < d * 2 ^ shift := Nat.mul_pos pos (Nat.two_pow_pos shift)
  have double := Nat.mul_le_mul_left (2 ^ f.fractionBits)
    (two_pow_mul_le (by omega) : 2 ^ 1 * (d * 2 ^ found) ≤ d * 2 ^ shift)
  rw [Nat.pow_one] at double
  rw [Nat.pow_succ, Nat.mul_assoc] at above
  have power : significand = 2 ^ f.fractionBits := by
    by_contra other
    have more := Nat.mul_le_mul_right (d * 2 ^ shift)
      (Nat.lt_of_le_of_ne (canonical.full (by omega)) (Ne.symm other))
    rw [Nat.succ_eq_add_one, Nat.succ_mul] at more
    rw [if_neg (fun both => other both.1)] at low
    omega
  refine ⟨power, ?_⟩
  by_contra other
  subst power
  rw [if_pos ⟨rfl, by omega⟩, Nat.one_mul] at low
  have quadruple := Nat.mul_le_mul_left (2 ^ f.fractionBits)
    (two_pow_mul_le (by omega) : 2 ^ 2 * (d * 2 ^ found) ≤ d * 2 ^ shift)
  have one := Nat.mul_le_mul_right (d * 2 ^ shift) (Nat.two_pow_pos f.fractionBits)
  rw [Nat.mul_left_comm] at quadruple above
  rw [Nat.succ_mul, Nat.zero_mul, Nat.zero_add] at one
  omega

/-- A ratio between the midpoints to the neighbours of a position is rounded to it. -/
theorem ofRatio_of_contains (canonical : f.Canonical significand shift)
    (within : (Decimal.Interval.around f significand shift).Contains (n / d)) :
    f.ofRatio n d = min (shift * 2 ^ f.fractionBits + significand) f.infinity := by
  obtain ⟨found, eq, above, below⟩ := ofRatio_eq pos n f
  obtain ⟨low, high, strict⟩ := around_bounds pos n within
  have unitPos : 0 < d * 2 ^ found := Nat.mul_pos pos (Nat.two_pow_pos found)
  rw [eq]
  congr 1
  generalize n * 2 ^ f.scale = scaled at *
  rcases Nat.lt_or_eq_of_le (spacing_le pos canonical high below) with narrower | rfl
  · -- The significand is carried into the next power of two.
    obtain ⟨rfl, rfl⟩ := spacing_lt pos canonical low above narrower
    have halved : d * 2 ^ (found + 1) = 2 * (d * 2 ^ found) := by
      rw [Nat.pow_succ, ← Nat.mul_assoc, Nat.mul_comm]
    rw [if_pos ⟨rfl, by omega⟩, Nat.one_mul, halved] at low
    rw [Nat.pow_succ, Nat.mul_assoc] at above
    have carried : roundHalfEven scaled (d * 2 ^ found) = 2 ^ f.fractionBits * 2 := by
      refine roundHalfEven_eq unitPos ?_ ?_ fun odd => absurd odd (by omega)
      · rw [Nat.mul_assoc]
        omega
      · rw [Nat.mul_assoc]
        omega
    rw [carried, Nat.succ_mul]
    omega
  · have gap : (if significand = 2 ^ f.fractionBits ∧ 0 < found then 1 else 2) *
        (d * 2 ^ found) ≤ 2 * (d * 2 ^ found) :=
      Nat.mul_le_mul_right _ (by split <;> decide)
    have nearest : roundHalfEven scaled (d * 2 ^ found) = significand :=
      roundHalfEven_eq unitPos (by omega) (by omega) fun odd => by
        have := strict odd
        omega
    rw [nearest]

theorem ofRatio_lt_infinity {k : Nat} (small : n * 2 ^ f.scale < 2 ^ (f.fractionBits + k + 1) * d)
    (room : k + 2 < 2 ^ f.exponentBits - 1) : f.ofRatio n d < f.infinity := by
  obtain ⟨shift, eq, above, below⟩ := ofRatio_eq pos n f
  have bound : shift ≤ k := by
    by_contra! far
    have power : 2 ^ (f.fractionBits + k + 1) * d ≤ 2 ^ f.fractionBits * (d * 2 ^ shift) := by
      rw [Nat.mul_comm d, ← Nat.mul_assoc, ← Nat.pow_add]
      exact Nat.mul_le_mul_right _ (Nat.pow_le_pow_right Nat.two_pos (by omega))
    have := below (by omega)
    omega
  have most := roundHalfEven_le (Nat.mul_pos pos (Nat.two_pow_pos shift)) above.le
  have spaced := Nat.mul_le_mul_right (2 ^ f.fractionBits) bound
  have roomy : (k + 2) * 2 ^ f.fractionBits < f.infinity :=
    Nat.mul_lt_mul_of_pos_right room (Nat.two_pow_pos _)
  rw [Nat.pow_succ] at most
  rw [Nat.add_mul] at roomy
  rw [eq]
  omega

end Ratios

end FloatFormat

end BinaryXml
