import BinaryXml.DecimalText

/-!
# Digits of whole numbers

The digits that a number is written with are digits to every reader, and their value is the number.
A reader with a limit goes through any digits whose value is within it.
-/

namespace BinaryXml

-- Powers are those of `Nat` alone, whatever algebra is in scope.
attribute [local instance (high)] instPowNat

namespace Decimal

theorem digit?_eq_some {c : Char} (h : isDigit c = true) :
    IntegerText.digit? c = some (c.toNat - 48) := by
  unfold isDigit IntegerText.digit? at *
  split at h
  · next within => rw [if_pos within]
  · cases h

theorem isDigit_digitChar {d : Nat} (h : d < 10) :
    isDigit d.digitChar = true ∧ d.digitChar.toNat - 48 = d := by
  revert d
  decide

theorem foldl_digits (start : Nat) (cs : List Char) :
    cs.foldl (fun n c => n * 10 + (c.toNat - 48)) start =
      start * 10 ^ cs.length + digitsValue cs := by
  induction cs generalizing start with
  | nil => simp [digitsValue]
  | cons c cs ih =>
      simp only [List.foldl_cons, digitsValue, List.length_cons]
      rw [ih, ih (0 * 10 + (c.toNat - 48)), Nat.pow_succ, Nat.zero_mul, Nat.zero_add, Nat.add_mul,
        Nat.mul_assoc, Nat.mul_comm 10, Nat.add_assoc]

theorem digitsValue_append (front back : List Char) :
    digitsValue (front ++ back) = digitsValue front * 10 ^ back.length + digitsValue back := by
  rw [digitsValue, List.foldl_append, foldl_digits]
  rfl

theorem digitsValue_cons (c : Char) (cs : List Char) :
    digitsValue (c :: cs) = (c.toNat - 48) * 10 ^ cs.length + digitsValue cs := by
  rw [← List.singleton_append, digitsValue_append]
  simp [digitsValue]

theorem digitsValue_replicate_zero (count : Nat) :
    digitsValue (List.replicate count '0') = 0 := by
  induction count with
  | zero => rfl
  | succ count ih =>
      rw [List.replicate_succ, digitsValue_cons, ih]
      simp

/-- The digits of a number are written from the last one backwards. -/
theorem digits_of_repr (n : Nat) :
    (∀ c ∈ (Nat.repr n).toList, isDigit c = true) ∧ digitsValue (Nat.repr n).toList = n := by
  rw [Nat.toList_repr]
  induction n using Nat.strongRecOn with
  | ind n ih =>
      rw [Nat.toDigits_eq_if (by decide)]
      by_cases small : n < 10
      · obtain ⟨digit, value⟩ := isDigit_digitChar small
        rw [if_pos small]
        refine ⟨by simpa using digit, ?_⟩
        rw [digitsValue_cons, value]
        simp [digitsValue]
      · obtain ⟨digits, front⟩ := ih (n / 10) (by omega)
        obtain ⟨digit, value⟩ := isDigit_digitChar (Nat.mod_lt n (by decide : 0 < 10))
        rw [if_neg small]
        constructor
        · intro c mem
          rcases List.mem_append.1 mem with before | last
          · exact digits c before
          · rw [List.mem_singleton.1 last]
            exact digit
        · rw [digitsValue_append, front, digitsValue_cons, value]
          simp only [digitsValue, List.foldl_nil, List.length_cons, List.length_nil]
          omega

theorem toList_repr_ne_nil (n : Nat) : (Nat.repr n).toList ≠ [] := by
  rw [Nat.toList_repr, Nat.toDigits_eq_if (by decide)]
  split
  · exact List.cons_ne_nil _ _
  · exact List.append_ne_nil_of_right_ne_nil _ (List.cons_ne_nil _ _)

end Decimal

namespace IntegerText

open Decimal

/-- Digits are read as long as their value is within the limit. -/
theorem readDigits_eq_ok {limit : Nat} {past : Failure} {n : Nat} {cs : List Char}
    (digits : ∀ c ∈ cs, isDigit c = true) (within : n * 10 ^ cs.length + digitsValue cs ≤ limit) :
    readDigits limit past n cs = .ok (n * 10 ^ cs.length + digitsValue cs) := by
  induction cs generalizing n with
  | nil => simp [readDigits, digitsValue]
  | cons c cs ih =>
      have moved : (n * 10 + (c.toNat - 48)) * 10 ^ cs.length + digitsValue cs =
          n * 10 ^ (c :: cs).length + digitsValue (c :: cs) := by
        rw [digitsValue_cons, List.length_cons, Nat.pow_succ, Nat.add_mul, Nat.mul_assoc,
          Nat.mul_comm 10, Nat.add_assoc]
      have room : n * 10 + (c.toNat - 48) ≤ limit := by
        refine Nat.le_trans ?_ within
        rw [← moved]
        exact Nat.le_trans (Nat.le_mul_of_pos_right _ (Nat.pow_pos (by decide)))
          (Nat.le_add_right _ _)
      rw [readDigits, digit?_eq_some (digits c List.mem_cons_self)]
      dsimp only
      rw [if_pos room, ih (fun d mem => digits d (List.mem_cons_of_mem c mem)) (moved ▸ within),
        moved]

theorem readDigits_repr {limit : Nat} (past : Failure) {n : Nat} (within : n ≤ limit) :
    readDigits limit past 0 (Nat.repr n).toList = .ok n := by
  obtain ⟨digits, value⟩ := digits_of_repr n
  have whole : 0 * 10 ^ (Nat.repr n).toList.length + digitsValue (Nat.repr n).toList = n := by
    rw [value, Nat.zero_mul, Nat.zero_add]
  rw [readDigits_eq_ok digits (by rw [whole]; exact within), whole]

theorem readSigned_of_digit {c : Char} {cs : List Char} (digit : isDigit c = true) (bits : Nat) :
    readSigned bits (c :: cs) =
      (readDigits (2 ^ (bits - 1) - 1) .tooLarge 0 (c :: cs)).map Int.ofNat := by
  unfold readSigned
  split
  case h_6 => rfl
  all_goals
    next same => cases same <;> exact absurd digit (by decide)

theorem readSigned_minus {cs : List Char} (filled : cs ≠ []) (bits : Nat) :
    readSigned bits ('-' :: cs) =
      (readDigits (2 ^ (bits - 1)) .tooSmall 0 cs).map fun n => -(n : Int) := by
  cases cs with
  | nil => exact absurd rfl filled
  | cons c cs => rfl

theorem toList_toString_negSucc (n : Nat) :
    (toString (Int.negSucc n)).toList = '-' :: (Nat.repr (n + 1)).toList := by
  rw [Int.toString_eq_repr]
  exact String.toList_append

/-- An integer of given width is read back from its digits, with a minus sign or none. -/
theorem readSigned_toString {bits : Nat} {i : Int} (least : -((2 ^ (bits - 1) : Nat) : Int) ≤ i)
    (most : i < ((2 ^ (bits - 1) : Nat) : Int)) :
    readSigned bits (toString i).toList = .ok i := by
  cases i with
  | ofNat n =>
      have text : (toString (Int.ofNat n)).toList = (Nat.repr n).toList := rfl
      have small : n ≤ 2 ^ (bits - 1) - 1 := by
        rw [Int.ofNat_eq_natCast] at most
        omega
      have read := readDigits_repr .tooLarge small
      obtain ⟨digits, -⟩ := digits_of_repr n
      rw [text]
      cases split : (Nat.repr n).toList with
      | nil => exact absurd split (toList_repr_ne_nil n)
      | cons c cs =>
          rw [split] at read digits
          rw [readSigned_of_digit (digits c List.mem_cons_self), read]
          rfl
  | negSucc n =>
      have small : n + 1 ≤ 2 ^ (bits - 1) := by
        rw [Int.negSucc_eq] at least
        omega
      rw [toList_toString_negSucc, readSigned_minus (toList_repr_ne_nil _),
        readDigits_repr .tooSmall small]
      rfl

end IntegerText

end BinaryXml
