import BinaryXml.Proofs.EncodingRoundTrip

/-!
# Text has one encoding

A sequence of octets that stands for a character is the one that the character is encoded as: the
bounds on the octets behind the first one leave no room for another. So octets that are decoded
at all are the encoding of what they are decoded to.
-/

namespace BinaryXml

theorem Char.toNat_ofNat_of_isValidChar {n : Nat} (h : n.isValidChar) :
    (Char.ofNat n).toNat = n := by
  rw [Char.ofNat, dif_pos h]
  rfl

namespace Utf8

theorem toNat_of_isContinuation {octet : UInt8} (h : isContinuation octet = true) :
    0x80 ≤ octet.toNat ∧ octet.toNat < 0xC0 := by
  simpa [isContinuation] using h

theorem toNat_of_mayFollow {lead : Nat} {second : UInt8} (h : mayFollow lead second = true) :
    (0x80 ≤ second.toNat ∧ second.toNat < 0xC0) ∧
      (lead = 0xE0 → 0xA0 ≤ second.toNat) ∧ (lead = 0xED → second.toNat < 0xA0) ∧
      (lead = 0xF0 → 0x90 ≤ second.toNat) ∧ (lead = 0xF4 → second.toNat < 0x90) := by
  simp only [mayFollow, Bool.and_eq_true, Bool.or_eq_true, bne_iff_ne, decide_eq_true_eq] at h
  obtain ⟨⟨⟨⟨next, hE0⟩, hED⟩, hF0⟩, hF4⟩ := h
  have := toNat_of_isContinuation next
  omega

theorem ofNat_eq (octet : UInt8) {n : Nat} (h : n = octet.toNat) : UInt8.ofNat n = octet := by
  rw [h, UInt8.ofNat_toNat]

section Groups

variable {first second third fourth : UInt8}

theorem encodeChar_one (h : first.toNat < 0x80) :
    encodeChar (Char.ofNat first.toNat) = [first] := by
  have same := Char.toNat_ofNat_of_isValidChar (n := first.toNat) (.inl (by omega))
  simp only [encodeChar, same]
  rw [if_pos h, UInt8.ofNat_toNat]

theorem encodeChar_two (least : 0xC2 ≤ first.toNat) (most : first.toNat < 0xE0)
    (h2 : mayFollow first.toNat second = true) :
    encodeChar (Char.ofNat ((first.toNat - 0xC0) * 64 + (second.toNat - 0x80))) =
      [first, second] := by
  obtain ⟨⟨low, high⟩, -⟩ := toNat_of_mayFollow h2
  generalize hn : (first.toNat - 0xC0) * 64 + (second.toNat - 0x80) = n
  have same := Char.toNat_ofNat_of_isValidChar (n := n) (.inl (by omega))
  simp only [encodeChar, same]
  rw [if_neg (by omega), if_pos (by omega), ofNat_eq first (by omega),
    ofNat_eq second (by omega)]

theorem encodeChar_three (least : 0xE0 ≤ first.toNat) (most : first.toNat < 0xF0)
    (h2 : mayFollow first.toNat second = true) (h3 : isContinuation third = true) :
    encodeChar (Char.ofNat ((first.toNat - 0xE0) * 4096 + (second.toNat - 0x80) * 64 +
      (third.toNat - 0x80))) = [first, second, third] := by
  obtain ⟨⟨low, high⟩, hE0, hED, -, -⟩ := toNat_of_mayFollow h2
  obtain ⟨low3, high3⟩ := toNat_of_isContinuation h3
  generalize hn : (first.toNat - 0xE0) * 4096 + (second.toNat - 0x80) * 64 +
    (third.toNat - 0x80) = n
  have valid : n.isValidChar := by
    unfold Nat.isValidChar
    omega
  simp only [encodeChar, Char.toNat_ofNat_of_isValidChar valid]
  rw [if_neg (by omega), if_neg (by omega), if_pos (by omega), ofNat_eq first (by omega),
    ofNat_eq second (by omega), ofNat_eq third (by omega)]

theorem encodeChar_four (least : 0xF0 ≤ first.toNat) (most : first.toNat ≤ 0xF4)
    (h2 : mayFollow first.toNat second = true) (h3 : isContinuation third = true)
    (h4 : isContinuation fourth = true) :
    encodeChar (Char.ofNat ((first.toNat - 0xF0) * 262144 + (second.toNat - 0x80) * 4096 +
      (third.toNat - 0x80) * 64 + (fourth.toNat - 0x80))) = [first, second, third, fourth] := by
  obtain ⟨⟨low, high⟩, -, -, hF0, hF4⟩ := toNat_of_mayFollow h2
  obtain ⟨low3, high3⟩ := toNat_of_isContinuation h3
  obtain ⟨low4, high4⟩ := toNat_of_isContinuation h4
  generalize hn : (first.toNat - 0xF0) * 262144 + (second.toNat - 0x80) * 4096 +
    (third.toNat - 0x80) * 64 + (fourth.toNat - 0x80) = n
  have valid : n.isValidChar := by
    unfold Nat.isValidChar
    omega
  simp only [encodeChar, Char.toNat_ofNat_of_isValidChar valid]
  rw [if_neg (by omega), if_neg (by omega), if_neg (by omega),
    ofNat_eq first (by omega), ofNat_eq second (by omega),
    ofNat_eq third (by omega), ofNat_eq fourth (by omega)]

end Groups

/-- A character in front of the rest, as the decoder puts it there. -/
theorem encode_cons_of_map {r : Except Failure (List Char)} {c : Char} {cs : List Char}
    {group rest : Octets} (h : r.map (c :: ·) = .ok cs) (front : encodeChar c = group)
    (later : ∀ others, r = .ok others → others.flatMap encodeChar = rest) :
    cs.flatMap encodeChar = group ++ rest := by
  cases r with
  | error failure => cases h
  | ok others =>
      cases h
      rw [List.flatMap_cons, front, later others rfl]

theorem encode_of_decodeFrom {index : Nat} {octets : Octets} :
    ∀ cs, decodeFrom index octets = .ok cs → cs.flatMap encodeChar = octets := by
  fun_induction decodeFrom index octets with
  | case1 index =>
      intro cs h
      cases h
      rfl
  | case2 index first rest lead ascii ih =>
      intro cs h
      exact encode_cons_of_map h (encodeChar_one ascii) ih
  | case6 index first lead _ leads second rest follows two n ih =>
      intro cs h
      simp only [Bool.or_eq_true, decide_eq_true_eq, Bool.not_eq_true', Bool.not_eq_false] at *
      exact encode_cons_of_map h (encodeChar_two (by omega) two follows) ih
  | case9 index first lead _ leads second follows _ third rest goesOn three n ih =>
      intro cs h
      simp only [Bool.or_eq_true, decide_eq_true_eq, Bool.not_eq_true', Bool.not_eq_false] at *
      exact encode_cons_of_map h (encodeChar_three (by omega) three follows goesOn) ih
  | case12 index first lead _ leads second follows _ third goesOn _ fourth rest ends n ih =>
      intro cs h
      simp only [Bool.or_eq_true, decide_eq_true_eq, Bool.not_eq_true', Bool.not_eq_false] at *
      exact encode_cons_of_map h (encodeChar_four (by omega) (by omega) follows goesOn ends) ih
  | _ =>
      intro cs h
      cases h

/-- Only what a text is encoded as is decoded to it. -/
theorem encode_of_decode {octets : Octets} {text : String} (h : decode octets = .ok text) :
    encode text = octets := by
  cases decoded : decodeFrom 0 octets with
  | error failure =>
      rw [decode, decoded] at h
      cases h
  | ok cs =>
      rw [decode, decoded] at h
      cases h
      rw [encode, String.toList_ofList, encode_of_decodeFrom cs decoded]

end Utf8

end BinaryXml
