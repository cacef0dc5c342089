import BinaryXml.Proofs.CharacterForms
import BinaryXml.Proofs.DoubleRounding
import Mathlib.Data.List.TakeWhile

/-!
# Texts of floating-point numbers

A decimal in positional form is read as itself, whatever its exponent. So the text of a number is
read as its sign and, rounded once, as the decimal that was found for it.
-/

namespace BinaryXml

-- Powers are those of `Nat` alone, whatever algebra is in scope.
attribute [local instance (high)] instPowNat

namespace Decimal

/-! ## Digits with a point -/

section Digits

variable {whole fraction : List Char} (filled : whole ≠ [])
  (digits : ∀ c ∈ whole, isDigit c = true)

include filled digits

theorem read?_of_digits : read? whole = some ⟨digitsValue whole, 0⟩ := by
  unfold read?
  rw [List.takeWhile_eq_self_iff.2 digits, List.dropWhile_eq_nil_iff.2 digits]
  simp only [List.isEmpty_eq_false_iff.2 filled, Bool.false_and, List.append_nil]
  rfl

theorem read?_of_point (digits' : ∀ c ∈ fraction, isDigit c = true) :
    read? (whole ++ '.' :: fraction) =
      some ⟨digitsValue (whole ++ fraction), -(fraction.length : Int)⟩ := by
  have point : isDigit '.' = false := by decide
  have taken : (whole ++ '.' :: fraction).takeWhile isDigit = whole := by
    rw [List.takeWhile_append_of_pos digits, List.takeWhile_cons, point]
    exact List.append_nil whole
  have dropped : (whole ++ '.' :: fraction).dropWhile isDigit = '.' :: fraction := by
    rw [List.dropWhile_append_of_pos digits, List.dropWhile_cons, point]
    rfl
  unfold read?
  rw [taken, dropped]
  simp only [List.takeWhile_eq_self_iff.2 digits', List.dropWhile_eq_nil_iff.2 digits',
    List.isEmpty_eq_false_iff.2 filled, Bool.false_and]
  simp

end Digits

/-- A number in positional form is digits alone, or digits on both sides of a point; its own digits
are among them. -/
theorem toList_positional (d : Decimal) :
    (∃ whole, d.positional.toList = whole ∧ whole ≠ [] ∧ (∀ c ∈ whole, isDigit c = true) ∧
      0 ≤ d.exponent ∧ digitsValue whole = d.digits * 10 ^ d.exponent.toNat) ∨
    ∃ whole fraction, d.positional.toList = whole ++ '.' :: fraction ∧ whole ≠ [] ∧
      (∀ c ∈ whole, isDigit c = true) ∧ (∀ c ∈ fraction, isDigit c = true) ∧
      digitsValue (whole ++ fraction) = d.digits ∧ d.exponent = -(fraction.length : Int) := by
  obtain ⟨digits, value⟩ := digits_of_repr d.digits
  have filled := toList_repr_ne_nil d.digits
  have zeros (count : Nat) : ∀ c ∈ List.replicate count '0', isDigit c = true := by
    intro c mem
    rw [(List.mem_replicate.1 mem).2]
    decide
  unfold positional
  generalize (Nat.repr d.digits).toList = own at *
  dsimp only
  split
  next front =>
    left
    refine ⟨_, String.toList_ofList, List.append_ne_nil_of_left_ne_nil filled _, ?_, front, ?_⟩
    · exact List.forall_mem_append.2 ⟨digits, zeros _⟩
    · rw [digitsValue_append, digitsValue_replicate_zero, value, List.length_replicate,
        Nat.add_zero]
  next back =>
    right
    split
    next inside =>
      refine ⟨_, _, String.toList_ofList, ?_, fun c mem => digits c (List.mem_of_mem_take mem),
        fun c mem => digits c (List.mem_of_mem_drop mem), ?_, ?_⟩
      · rw [Ne, List.take_eq_nil_iff, not_or]
        exact ⟨by omega, filled⟩
      · rw [List.take_append_drop, value]
      · rw [List.length_drop]
        omega
    next outside =>
      refine ⟨['0'], List.replicate ((-d.exponent).toNat - own.length) '0' ++ own,
        String.toList_ofList, List.cons_ne_nil _ _, zeros 1,
        List.forall_mem_append.2 ⟨zeros _, digits⟩, ?_, ?_⟩
      · rw [digitsValue_append, digitsValue_append, digitsValue_replicate_zero, value]
        simp [digitsValue]
      · rw [List.length_append, List.length_replicate]
        omega

/-- A number in positional form is read as itself. -/
theorem read?_positional (d : Decimal) :
    ∃ r, read? d.positional.toList = some r ∧ ∀ f, r.round f = d.round f := by
  rcases toList_positional d with ⟨whole, text, filled, digits, front, value⟩ |
    ⟨whole, fraction, text, filled, digits, digits', value, places⟩
  · refine ⟨_, text ▸ read?_of_digits filled digits, fun f => ?_⟩
    rw [text, value, round, round, if_pos le_rfl, if_pos front]
    change f.ofRatio (_ * 10 ^ 0) 1 = _
    rw [Nat.pow_zero, Nat.mul_one]
  · refine ⟨_, text ▸ read?_of_point filled digits digits', fun f => ?_⟩
    rw [value, ← places]

/-- The text begins with a digit and has no white space. -/
theorem positional_shape (d : Decimal) : ∃ c cs, d.positional.toList = c :: cs ∧
    isDigit c = true ∧ WhiteSpace.IsSolid (c :: cs) := by
  have point : WhiteSpace.isWhiteSpace '.' = false := by decide
  rcases toList_positional d with ⟨whole, text, filled, digits, -⟩ |
    ⟨whole, fraction, text, filled, digits, digits', -⟩
  · obtain ⟨c, cs, rfl⟩ := List.exists_cons_of_ne_nil filled
    exact ⟨c, cs, text, digits c List.mem_cons_self, BuiltinAlgorithm.isSolid_of_digits digits⟩
  · obtain ⟨c, cs, rfl⟩ := List.exists_cons_of_ne_nil filled
    exact ⟨c, cs ++ '.' :: fraction, text, digits c List.mem_cons_self,
      WhiteSpace.isSolid_append.2 ⟨BuiltinAlgorithm.isSolid_of_digits digits,
        WhiteSpace.isSolid_cons.2 ⟨point, BuiltinAlgorithm.isSolid_of_digits digits'⟩⟩⟩

end Decimal

namespace FloatFormat

variable {f g : FloatFormat} {position : Nat}

/-! ## Signs and names -/

def magnitudeText (f : FloatFormat) (position : Nat) : String :=
  if position = f.infinity then "INF"
  else if f.significandAt position = 0 then "0"
  else (Decimal.shortest f (f.significandAt position) (f.shiftAt position)).positional

/-- The magnitude that a format reads the text of another as. -/
def reread (f g : FloatFormat) (position : Nat) : Nat :=
  if position = f.infinity then g.infinity
  else if f.significandAt position = 0 then 0
  else (Decimal.shortest f (f.significandAt position) (f.shiftAt position)).round g

theorem toList_text (negative : Bool) (number : position ≤ f.infinity) :
    (f.text (f.withSign negative position)).toList =
      if negative then '-' :: (f.magnitudeText position).toList
      else (f.magnitudeText position).toList := by
  unfold text magnitudeText
  rcases Nat.lt_or_eq_of_le number with finite | rfl
  · rw [value_withSign negative finite, if_neg finite.ne]
    cases negative with
    | false => rfl
    | true => exact String.toList_append
  · rw [value_withSign_infinity, if_pos rfl]
    cases negative with
    | false => rfl
    | true => exact (by decide : "-INF".toList = '-' :: "INF".toList)

/-- The text of a magnitude begins with no sign and has no white space. -/
theorem magnitudeText_shape (f : FloatFormat) (position : Nat) :
    ∃ c cs, (f.magnitudeText position).toList = c :: cs ∧ (c ≠ '-' ∧ c ≠ '+') ∧
      WhiteSpace.IsSolid (c :: cs) := by
  unfold magnitudeText
  split
  · exact ⟨'I', ['N', 'F'], rfl, by decide, by decide⟩
  · split
    · exact ⟨'0', [], rfl, by decide, by decide⟩
    · obtain ⟨c, cs, text, digit, solid⟩ := Decimal.positional_shape
        (Decimal.shortest f (f.significandAt position) (f.shiftAt position))
      refine ⟨c, cs, text, ⟨?_, ?_⟩, solid⟩
      · rintro rfl
        exact absurd digit (by decide)
      · rintro rfl
        exact absurd digit (by decide)

theorem readMagnitude?_text (g f : FloatFormat) (position : Nat) :
    g.readMagnitude? (f.magnitudeText position).toList = some (f.reread g position) := by
  unfold magnitudeText reread
  split
  · rfl
  · split
    · have zero : g.ofRatio 0 1 = 0 := by simp [ofRatio, roundHalfEven]
      have read : Decimal.read? "0".toList = some ⟨0, 0⟩ := by rfl
      rw [readMagnitude?, read]
      exact congrArg some zero
    · obtain ⟨r, read, same⟩ := Decimal.read?_positional
        (Decimal.shortest f (f.significandAt position) (f.shiftAt position))
      rw [readMagnitude?, read, ← same]

theorem read?_text (negative : Bool) (number : position ≤ f.infinity) :
    g.read? (f.text (f.withSign negative position)).toList =
      some (g.withSign negative (f.reread g position)) := by
  obtain ⟨c, cs, text, unsigned, -⟩ := f.magnitudeText_shape position
  have read := g.readMagnitude?_text f position
  rw [toList_text negative number]
  rw [text] at read ⊢
  cases negative with
  | true =>
      unfold read?
      simp only [if_true, read, Option.map_some]
  | false =>
      have plain : g.read? (c :: cs) = (g.readMagnitude? (c :: cs)).map (g.withSign false) := by
        unfold read?
        split
        next negative magnitude parts =>
          split at parts
          next same => exact absurd (List.cons.inj same).1 unsigned.1
          next same => exact absurd (List.cons.inj same).1 unsigned.2
          next =>
            cases parts
            rfl
      rw [if_neg Bool.false_ne_true, plain, read, Option.map_some]

end FloatFormat

end BinaryXml
