import BinaryXml.Proofs.FloatText

/-!
# Reading back floating-point numbers

Doubles are read back from their texts. Single numbers are read as doubles, and all but one
magnitude are read back as well: the shortest decimal for that one lies so close to a midpoint that
the double that it is read as is the midpoint, and narrowing goes to the even neighbour.
-/

namespace BinaryXml

-- Powers are those of `Nat` alone, whatever algebra is in scope.
attribute [local instance (high)] instPowNat

namespace FloatFormat

variable {f : FloatFormat} {position bits : Nat}

theorem exists_withSign (small : bits < 2 * f.signBit) :
    ∃ negative, bits = f.withSign negative (bits % f.signBit) := by
  by_cases sign : f.signBit ≤ bits
  · refine ⟨true, ?_⟩
    rw [Nat.mod_eq_sub_mod sign, Nat.mod_eq_of_lt (by omega), withSign, if_pos rfl,
      Nat.add_sub_cancel' sign]
  · exact ⟨false, (Nat.mod_eq_of_lt (by omega)).symm⟩

theorem value_ne_nan_iff : f.value bits ≠ .nan ↔ bits % f.signBit ≤ f.infinity := by
  unfold value
  constructor
  · intro number
    by_contra! beyond
    exact number (if_pos beyond)
  · intro within
    dsimp only
    rw [if_neg (Nat.not_lt.2 within)]
    split
    · exact FloatValue.noConfusion
    · split <;> exact FloatValue.noConfusion

theorem significandAt_eq_zero : f.significandAt position = 0 ↔ position = 0 := by
  have canonical := f.canonical_at position
  have whole := f.position_eq position
  constructor
  · intro zero
    rw [zero, Nat.add_zero] at whole
    have least : f.shiftAt position = 0 := by
      by_contra some
      have := canonical.full (Nat.pos_of_ne_zero some)
      have := Nat.two_pow_pos f.fractionBits
      omega
    rw [← whole, least, Nat.zero_mul]
  · rintro rfl
    omega

/-- A format reads its own texts back. -/
theorem reread_self (number : position ≤ f.infinity) : f.reread f position = position := by
  unfold reread
  split
  next top => exact top.symm
  next =>
    split
    next zero => exact (significandAt_eq_zero.1 zero).symm
    next some =>
      have whole := f.position_eq position
      rw [Decimal.round_shortest (f.canonical_at position) (Nat.pos_of_ne_zero some)
        (by rw [whole]; exact number), whole]

/-- Rounded once, every number is read back from its text. -/
theorem read?_text_self (small : bits < 2 * f.signBit) (number : f.value bits ≠ .nan) :
    f.read? (f.text bits).toList = some bits := by
  obtain ⟨negative, pattern⟩ := exists_withSign small
  have below := value_ne_nan_iff.1 number
  generalize bits % f.signBit = position at *
  rw [pattern, read?_text negative below, reread_self below]

/-- Where a single number is found again that is read as a double. -/
def narrowed (position : Nat) : Nat := if position = 0x15AE43FD then 0x15AE43FE else position

theorem convert_reread (negative : Bool) (number : position ≤ binary32.infinity) :
    binary64.convert binary32
        (binary64.withSign negative (binary32.reread binary64 position)) =
      binary32.withSign negative (narrowed position) := by
  unfold reread
  split
  next top =>
    rw [convert, value_withSign_infinity, top]
    rfl
  next finite =>
    split
    next zero =>
      rw [significandAt_eq_zero.1 zero]
      cases negative <;> decide +kernel
    next some =>
      rcases eq_or_ne position 0x15AE43FD with rfl | usual
      · cases negative <;> decide +kernel
      · have whole := binary32.position_eq position
        have finite' : position < 255 * 2 ^ 23 := Nat.lt_of_le_of_ne number finite
        have bound : binary32.shiftAt position < 254 := by
          change position / 2 ^ 23 - 1 < 254
          omega
        rw [Decimal.convert_round_shortest (binary32.canonical_at position)
          (Nat.pos_of_ne_zero some) bound ?_ negative, whole, narrowed, if_neg usual]
        rintro ⟨significand, shift⟩
        rw [significand, shift] at whole
        exact usual whole.symm

end FloatFormat

namespace BuiltinAlgorithm

open FloatFormat

/-- The pattern that is read for the text of another. -/
def narrowedPattern (x : UInt32) : UInt32 :=
  if x = 0x15AE43FD then 0x15AE43FE else if x = 0x95AE43FD then 0x95AE43FE else x

theorem toNat_narrowedPattern {x : UInt32} {negative : Bool} {position : Nat}
    (small : position < binary32.signBit)
    (pattern : x.toNat = binary32.withSign negative position) :
    (narrowedPattern x).toNat = binary32.withSign negative (narrowed position) := by
  have sign : binary32.signBit = 0x80000000 := rfl
  have plus : x = 0x15AE43FD ↔ x.toNat = 0x15AE43FD := UInt32.toNat_inj.symm
  have minus : x = 0x95AE43FD ↔ x.toNat = 0x95AE43FD := UInt32.toNat_inj.symm
  unfold withSign at *
  rw [sign] at small pattern ⊢
  simp only [narrowedPattern, narrowed, plus, minus]
  cases negative with
  | false =>
      simp only [Bool.false_eq_true, if_false] at pattern ⊢
      by_cases lost : position = 0x15AE43FD
      · rw [if_pos (by omega), if_pos lost]
        rfl
      · rw [if_neg (by omega), if_neg (by omega), if_neg lost, pattern]
  | true =>
      simp only [if_true] at pattern ⊢
      by_cases lost : position = 0x15AE43FD
      · rw [if_neg (by omega), if_pos (by omega), if_pos lost]
        rfl
      · rw [if_neg (by omega), if_neg (by omega), if_neg lost, pattern]

theorem readFloat_text {x : UInt32} (number : binary32.value x.toNat ≠ .nan) :
    readFloat (binary32.text x.toNat).toList = .ok (narrowedPattern x).toNat := by
  obtain ⟨negative, pattern⟩ := exists_withSign (f := binary32) x.toNat_lt
  have small : x.toNat % binary32.signBit < binary32.signBit := Nat.mod_lt _ (Nat.two_pow_pos _)
  have below := value_ne_nan_iff.1 number
  rw [toNat_narrowedPattern small pattern]
  generalize x.toNat % binary32.signBit = position at *
  rw [pattern, readFloat, readDouble, read?_text negative below]
  exact congrArg Except.ok (convert_reread negative below)

theorem readDouble_text {x : UInt64} (number : binary64.value x.toNat ≠ .nan) (reason : String) :
    readDouble reason (binary64.text x.toNat).toList = .ok x.toNat := by
  rw [readDouble, read?_text_self x.toNat_lt number]

theorem isSolid_text {f : FloatFormat} {bits : Nat} (small : bits < 2 * f.signBit)
    (number : f.value bits ≠ .nan) :
    (f.text bits).toList ≠ [] ∧ WhiteSpace.IsSolid (f.text bits).toList := by
  obtain ⟨negative, pattern⟩ := exists_withSign small
  have below := value_ne_nan_iff.1 number
  generalize bits % f.signBit = position at *
  obtain ⟨c, cs, text, -, solid⟩ := f.magnitudeText_shape position
  rw [pattern, toList_text negative below, text]
  cases negative with
  | false => exact ⟨List.cons_ne_nil _ _, solid⟩
  | true => exact ⟨List.cons_ne_nil _ _, WhiteSpace.isSolid_cons.2 ⟨by decide, solid⟩⟩

/-- Doubles are read back from their texts. -/
theorem doubles_ofText_toText (xs : List UInt64)
    (numbers : ∀ x ∈ xs, binary64.value x.toNat ≠ .nan) :
    ∃ text, double.toText (.doubles xs) = .ok text ∧ double.ofText text = .ok (.doubles xs) := by
  refine ⟨_, rfl, ?_⟩
  have same : (UInt64.ofNat ∘ UInt64.toNat) = fun x => x := funext fun x => UInt64.ofNat_toNat
  rw [ofText, readWords_joined (fun x mem => isSolid_text x.toNat_lt (numbers x mem))
    fun x mem => readDouble_text (numbers x mem) _]
  change Except.ok (TypedValue.doubles ((xs.map UInt64.toNat).map UInt64.ofNat)) = _
  rw [List.map_map, same, List.map_id']

/-- Single numbers are read back from their texts, but for one magnitude. -/
theorem floats_ofText_toText (xs : List UInt32)
    (numbers : ∀ x ∈ xs, binary32.value x.toNat ≠ .nan) :
    ∃ text, float.toText (.floats xs) = .ok text ∧
      float.ofText text = .ok (.floats (xs.map narrowedPattern)) := by
  refine ⟨_, rfl, ?_⟩
  have same : (UInt32.ofNat ∘ fun x => (narrowedPattern x).toNat) = narrowedPattern :=
    funext fun x => UInt32.ofNat_toNat
  rw [ofText, readWords_joined (fun x mem => isSolid_text x.toNat_lt (numbers x mem))
    fun x mem => readFloat_text (numbers x mem)]
  change Except.ok
    (TypedValue.floats ((xs.map fun x => (narrowedPattern x).toNat).map UInt32.ofNat)) = _
  rw [List.map_map, same]

theorem floats_ofText_toText_extremes :
    ∃ text, float.toText (.floats [0x15AE43FD, 0x80000001, 0xFF800000]) = .ok text ∧
      float.ofText text = .ok (.floats [0x15AE43FE, 0x80000001, 0xFF800000]) := by
  refine floats_ofText_toText [0x15AE43FD, 0x80000001, 0xFF800000] ?_
  simp only [List.forall_mem_cons, value_ne_nan_iff]
  exact ⟨by decide, by decide, by decide, List.forall_mem_nil _⟩

/-- The double between two single numbers is narrowed to the even one, which was not written. -/
theorem float_lost_in_text :
    float.toText (.floats [0x15AE43FD]) = .ok "0.00000000000000000000000007038531" ∧
      float.ofText "0.00000000000000000000000007038531" = .ok (.floats [0x15AE43FE]) :=
  ⟨eq_ok_of_toOption (by decide +kernel), eq_ok_of_toOption (by decide +kernel)⟩

end BuiltinAlgorithm

end BinaryXml
