import BinaryXml.Proofs.Readers

/-!
# Reading back encoded text

Both encodings write a character as a group of octets that the decoder takes off again as a whole,
so text comes back character by character.
-/

namespace BinaryXml

/-- Code points leave out the surrogates. -/
theorem Char.toNat_cases (c : Char) :
    c.toNat < 0xD800 ∨ (0xDFFF < c.toNat ∧ c.toNat < 0x110000) :=
  c.valid

namespace Utf8

theorem decodeFrom_one {first : UInt8} (h : first.toNat < 0x80) (index : Nat) (rest : Octets) :
    decodeFrom index (first :: rest) =
      (decodeFrom (index + 1) rest).map (Char.ofNat first.toNat :: ·) := by
  rw [decodeFrom.eq_def]
  simp [h]

section Groups

variable {first second third fourth : UInt8} (index : Nat) (rest : Octets)

theorem decodeFrom_two (least : 0xC2 ≤ first.toNat) (most : first.toNat < 0xE0)
    (h2 : mayFollow first.toNat second = true) :
    decodeFrom index (first :: second :: rest) = (decodeFrom (index + 2) rest).map
      (Char.ofNat ((first.toNat - 0xC0) * 64 + (second.toNat - 0x80)) :: ·) := by
  have ascii : ¬ first.toNat < 0x80 := by omega
  have continuation : ¬ first.toNat < 0xC2 := by omega
  have past : ¬ 0xF4 < first.toNat := by omega
  rw [decodeFrom.eq_def]
  simp [ascii, continuation, past, h2, most]

theorem decodeFrom_three (least : 0xE0 ≤ first.toNat) (most : first.toNat < 0xF0)
    (h2 : mayFollow first.toNat second = true) (h3 : isContinuation third = true) :
    decodeFrom index (first :: second :: third :: rest) = (decodeFrom (index + 3) rest).map
      (Char.ofNat ((first.toNat - 0xE0) * 4096 + (second.toNat - 0x80) * 64 +
        (third.toNat - 0x80)) :: ·) := by
  have ascii : ¬ first.toNat < 0x80 := by omega
  have continuation : ¬ first.toNat < 0xC2 := by omega
  have past : ¬ 0xF4 < first.toNat := by omega
  have two : ¬ first.toNat < 0xE0 := by omega
  rw [decodeFrom.eq_def]
  simp [ascii, continuation, past, h2, two, h3, most]

theorem decodeFrom_four (least : 0xF0 ≤ first.toNat) (most : first.toNat ≤ 0xF4)
    (h2 : mayFollow first.toNat second = true) (h3 : isContinuation third = true)
    (h4 : isContinuation fourth = true) :
    decodeFrom index (first :: second :: third :: fourth :: rest) =
      (decodeFrom (index + 4) rest).map
        (Char.ofNat ((first.toNat - 0xF0) * 262144 + (second.toNat - 0x80) * 4096 +
          (third.toNat - 0x80) * 64 + (fourth.toNat - 0x80)) :: ·) := by
  have ascii : ¬ first.toNat < 0x80 := by omega
  have continuation : ¬ first.toNat < 0xC2 := by omega
  have past : ¬ 0xF4 < first.toNat := by omega
  have two : ¬ first.toNat < 0xE0 := by omega
  have three : ¬ first.toNat < 0xF0 := by omega
  rw [decodeFrom.eq_def]
  simp [ascii, continuation, past, h2, two, h3, three, h4]

end Groups

theorem toNat_ofNat {n : Nat} (h : n < 256) : (UInt8.ofNat n).toNat = n := by
  rw [UInt8.toNat_ofNat', Nat.mod_eq_of_lt (by omega)]

theorem isContinuation_ofNat {n : Nat} (h : n < 64) :
    isContinuation (UInt8.ofNat (0x80 + n)) = true := by
  rw [isContinuation, toNat_ofNat (by omega)]
  simp only [Bool.and_eq_true, decide_eq_true_eq]
  omega

theorem mayFollow_ofNat {lead n : Nat} (h : n < 64) (hE0 : lead = 0xE0 → 0x20 ≤ n)
    (hED : lead = 0xED → n < 0x20) (hF0 : lead = 0xF0 → 0x10 ≤ n) (hF4 : lead = 0xF4 → n < 0x10) :
    mayFollow lead (UInt8.ofNat (0x80 + n)) = true := by
  simp only [mayFollow, isContinuation_ofNat h, toNat_ofNat (n := 0x80 + n) (by omega),
    Bool.true_and, Bool.and_eq_true, Bool.or_eq_true, bne_iff_ne, decide_eq_true_eq]
  omega

/-- A character is taken off again as a whole. -/
theorem decodeFrom_encodeChar (c : Char) (index : Nat) (rest : Octets) :
    ∃ next, decodeFrom index (encodeChar c ++ rest) = (decodeFrom next rest).map (c :: ·) := by
  have valid := Char.toNat_cases c
  have same := Char.ofNat_toNat c
  generalize hn : c.toNat = n at valid same
  simp only [encodeChar, hn]
  have last := isContinuation_ofNat (Nat.mod_lt n (by omega : 64 > 0))
  have lastNat := toNat_ofNat (n := 0x80 + n % 64) (by omega)
  have inner := isContinuation_ofNat (Nat.mod_lt (n / 64) (by omega : 64 > 0))
  have innerNat := toNat_ofNat (n := 0x80 + n / 64 % 64) (by omega)
  split
  · have first := toNat_ofNat (n := n) (by omega)
    refine ⟨index + 1, (decodeFrom_one (by omega) index rest).trans ?_⟩
    rw [first, same]
  split
  · have first := toNat_ofNat (n := 0xC0 + n / 64) (by omega)
    have joined : (0xC0 + n / 64 - 0xC0) * 64 + (0x80 + n % 64 - 0x80) = n := by omega
    refine ⟨index + 2, (decodeFrom_two index rest (by omega) (by omega) ?_).trans ?_⟩
    · rw [first]
      apply mayFollow_ofNat <;> omega
    · rw [first, lastNat, joined, same]
  split
  · have first := toNat_ofNat (n := 0xE0 + n / 4096) (by omega)
    have joined : (0xE0 + n / 4096 - 0xE0) * 4096 + (0x80 + n / 64 % 64 - 0x80) * 64 +
        (0x80 + n % 64 - 0x80) = n := by omega
    refine ⟨index + 3, (decodeFrom_three index rest (by omega) (by omega) ?_ last).trans ?_⟩
    · rw [first]
      apply mayFollow_ofNat <;> omega
    · rw [first, lastNat, innerNat, joined, same]
  · have first := toNat_ofNat (n := 0xF0 + n / 262144) (by omega)
    have outerNat := toNat_ofNat (n := 0x80 + n / 4096 % 64) (by omega)
    have joined : (0xF0 + n / 262144 - 0xF0) * 262144 + (0x80 + n / 4096 % 64 - 0x80) * 4096 +
        (0x80 + n / 64 % 64 - 0x80) * 64 + (0x80 + n % 64 - 0x80) = n := by omega
    refine ⟨index + 4, (decodeFrom_four index rest (by omega) (by omega) ?_ inner last).trans ?_⟩
    · rw [first]
      apply mayFollow_ofNat <;> omega
    · rw [first, lastNat, innerNat, outerNat, joined, same]

theorem decodeFrom_encode (cs : List Char) (index : Nat) :
    decodeFrom index (cs.flatMap encodeChar) = .ok cs := by
  induction cs generalizing index with
  | nil => rfl
  | cons c cs ih =>
      obtain ⟨next, h⟩ := decodeFrom_encodeChar c index (cs.flatMap encodeChar)
      rw [List.flatMap_cons, h, ih]
      rfl

theorem decode_encode (text : String) : decode (encode text) = .ok text := by
  rw [decode, encode, decodeFrom_encode]
  simp [Except.map]

end Utf8

namespace Utf16

theorem readUnits_bigEndian {unit : Nat} (h : unit < 65536) (rest : Octets) :
    readUnits (bigEndian 2 unit ++ rest) = unit :: readUnits rest := by
  have high := Utf8.toNat_ofNat (n := unit / 256) (by omega)
  have low : (UInt8.ofNat unit).toNat = unit % 256 := UInt8.toNat_ofNat'
  simp only [bigEndian, List.cons_append, List.nil_append, readUnits, List.cons.injEq, and_true,
    Nat.pow_one, Nat.pow_zero, Nat.div_one, high, low]
  omega

theorem readUnits_flatMap {units : List Nat} (h : ∀ unit ∈ units, unit < 65536) :
    readUnits (units.flatMap (bigEndian 2)) = units := by
  induction units with
  | nil => rfl
  | cons unit units ih =>
      rw [List.flatMap_cons, readUnits_bigEndian (h unit List.mem_cons_self),
        ih fun u hu => h u (List.mem_cons_of_mem _ hu)]

theorem length_flatMap (units : List Nat) :
    (units.flatMap (bigEndian 2)).length = 2 * units.length := by
  induction units with
  | nil => rfl
  | cons unit units ih =>
      rw [List.flatMap_cons, List.length_append, ih, length_bigEndian, List.length_cons]
      omega

theorem units_lt (c : Char) : ∀ unit ∈ units c, unit < 65536 := by
  have valid := Char.toNat_cases c
  intro unit member
  unfold units at member
  dsimp only at member
  split at member
  · rw [List.mem_singleton] at member
    omega
  · simp only [List.mem_cons, List.not_mem_nil, or_false] at member
    omega

theorem ofUnits_units (c : Char) (rest : List Nat) :
    ofUnits (units c ++ rest) = (ofUnits rest).map (c :: ·) := by
  have valid := Char.toNat_cases c
  have same := Char.ofNat_toNat c
  generalize hn : c.toNat = n at valid same
  simp only [units, hn]
  split
  · have low : isLowSurrogate n = false := by simp [isLowSurrogate]; omega
    have high : isHighSurrogate n = false := by simp [isHighSurrogate]; omega
    rw [List.singleton_append, ofUnits.eq_def]
    simp [low, high, same]
  · have high : isHighSurrogate (0xD800 + (n - 0x10000) / 0x400) = true := by
      simp [isHighSurrogate]; omega
    have notLow : isLowSurrogate (0xD800 + (n - 0x10000) / 0x400) = false := by
      simp [isLowSurrogate]; omega
    have low : isLowSurrogate (0xDC00 + (n - 0x10000) % 0x400) = true := by
      simp [isLowSurrogate]; omega
    have joined : 0x10000 + (0xD800 + (n - 0x10000) / 0x400 - 0xD800) * 0x400 +
        (0xDC00 + (n - 0x10000) % 0x400 - 0xDC00) = n := by omega
    rw [List.cons_append, List.singleton_append, ofUnits.eq_def]
    simp only [high, notLow, low, joined, same, if_true, Bool.false_eq_true, if_false]

theorem ofUnits_flatMap (cs : List Char) : ofUnits (cs.flatMap units) = .ok cs := by
  induction cs with
  | nil => rfl
  | cons c cs ih =>
      rw [List.flatMap_cons, ofUnits_units, ih]
      rfl

theorem decode_encode (text : String) : decode (encode text) = .ok text := by
  have small : ∀ unit ∈ text.toList.flatMap units, unit < 65536 := by
    intro unit member
    obtain ⟨c, -, hc⟩ := List.mem_flatMap.1 member
    exact units_lt c unit hc
  rw [decode, encode, length_flatMap, if_neg (by omega), readUnits_flatMap small, ofUnits_flatMap]
  simp [Except.map]

end Utf16

namespace CharacterEncoding

theorem decode_encode (encoding : CharacterEncoding) (text : String) :
    encoding.decode (encoding.encode text) = .ok text := by
  cases encoding with
  | utf8 =>
      rw [encode, decode, Utf8.decode_encode]
      rfl
  | utf16 =>
      rw [encode, decode, Utf16.decode_encode]
      rfl

end CharacterEncoding

end BinaryXml
