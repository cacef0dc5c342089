import BinaryXml.AlgorithmRegistry
import BinaryXml.Proofs.EncodingRoundTrip

/-!
# Reading back typed values

Every built-in algorithm unpacks what it packed. Values of fixed width are told apart by their
width alone; booleans by the count of unused bits in front of them.
-/

namespace BinaryXml

-- Powers are those of `Nat` alone, whatever algebra is in scope.
attribute [local instance (high)] instPowNat

theorem ofBigEndian_bigEndian_of_lt {width n : Nat} (h : n < 256 ^ width) :
    ofBigEndian (bigEndian width n) = n := by
  rw [ofBigEndian_bigEndian, Nat.mod_eq_of_lt h]

namespace BooleanPacking

theorem bitsOfOctet_octetOfBits : ∀ a b c d e f g h : Bool,
    bitsOfOctet (octetOfBits [a, b, c, d, e, f, g, h]) = [a, b, c, d, e, f, g, h] := by
  decide

theorem length_octetsOfBits (bits : List Bool) : (octetsOfBits bits).length = bits.length / 8 := by
  fun_induction octetsOfBits bits with
  | case1 a b c d e f g h rest ih =>
      simp only [List.length_cons, ih]
      omega
  | case2 bits short =>
      have : bits.length < 8 := by
        match bits with
        | [] | [_] | [_, _] | [_, _, _] | [_, _, _, _] | [_, _, _, _, _] | [_, _, _, _, _, _]
        | [_, _, _, _, _, _, _] => simp
        | a :: b :: c :: d :: e :: f :: g :: h :: rest =>
            exact absurd rfl (short a b c d e f g h rest)
      rw [Nat.div_eq_of_lt this]
      rfl

theorem bitsOfOctets_octetsOfBits {bits : List Bool} (whole : bits.length % 8 = 0) :
    bitsOfOctets (octetsOfBits bits) = bits := by
  fun_induction octetsOfBits bits with
  | case1 a b c d e f g h rest ih =>
      have rest_whole : rest.length % 8 = 0 := by
        simp only [List.length_cons] at whole
        omega
      have ih := ih rest_whole
      simp only [bitsOfOctets] at ih ⊢
      rw [List.flatMap_cons, bitsOfOctet_octetOfBits, ih]
      rfl
  | case2 bits short =>
      match bits with
      | [] => rfl
      | [_] | [_, _] | [_, _, _] | [_, _, _, _] | [_, _, _, _, _] | [_, _, _, _, _, _]
      | [_, _, _, _, _, _, _] => simp at whole
      | a :: b :: c :: d :: e :: f :: g :: h :: rest =>
          exact absurd rfl (short a b c d e f g h rest)

/-- The leading four bits of an octet are the low four bits of a small number. -/
theorem toNat_div_of_leading {first : UInt8} {n : Nat} (hn : n < 16)
    (h : (bitsOfOctet first).take 4 = (bitsOfOctet (UInt8.ofNat n)).drop 4) :
    first.toNat / 16 = n := by
  have narrow := Utf8.toNat_ofNat (n := n) (by omega)
  have bit (x y : Nat) (h : (x % 2 == 1) = (y % 2 == 1)) : x % 2 = y % 2 := by
    rw [Bool.eq_iff_iff, beq_iff_eq, beq_iff_eq] at h
    omega
  simp only [bitsOfOctet, List.take, List.drop, List.cons.injEq, and_true, narrow] at h
  obtain ⟨h8, h4, h2, h1⟩ := h
  have := bit _ _ h8
  have := bit _ _ h4
  have := bit _ _ h2
  have := bit _ _ h1
  have := first.toNat_lt
  omega

theorem unpack_pack (values : List Bool) : unpack (pack values) = .ok values := by
  have unused_lt : unusedBits values.length < 8 := by
    unfold unusedBits
    omega
  have header : ((bitsOfOctet (UInt8.ofNat (unusedBits values.length))).drop 4).length = 4 := rfl
  generalize hbits : ((bitsOfOctet (UInt8.ofNat (unusedBits values.length))).drop 4 ++ values) ++
    List.replicate (unusedBits values.length) false = bits
  have length : bits.length = 4 + values.length + unusedBits values.length := by
    rw [← hbits, List.length_append, List.length_append, header, List.length_replicate]
  have whole : bits.length % 8 = 0 := by
    rw [length]
    unfold unusedBits
    omega
  have back := bitsOfOctets_octetsOfBits whole
  have count := length_octetsOfBits bits
  have packed : pack values = octetsOfBits bits := by rw [← hbits]; rfl
  rw [packed, unpack.eq_def]
  cases hoctets : octetsOfBits bits with
  | nil =>
      rw [hoctets] at count
      simp only [List.length_nil] at count
      omega
  | cons first rest =>
      have leading : first.toNat / 16 = unusedBits values.length := by
        apply toNat_div_of_leading (by omega)
        have octet : 4 ≤ (bitsOfOctet first).length := Nat.le_add_left 4 4
        have front := congrArg (List.take 4) back
        rwa [hoctets, bitsOfOctets, List.flatMap_cons, List.take_append_of_le_length octet, ← hbits,
          List.append_assoc, List.take_left' header] at front
      rw [hoctets] at back count
      simp only [leading, back]
      have fits : (7 < unusedBits values.length ||
          (first :: rest).length * 8 < 4 + unusedBits values.length) = false := by
        simp only [Bool.or_eq_false_iff, decide_eq_false_iff_not]
        omega
      rw [if_neg (by rw [fits]; decide)]
      have kept : (first :: rest).length * 8 - 4 - unusedBits values.length = values.length := by
        omega
      rw [kept, ← hbits, List.append_assoc,
        List.drop_append_of_le_length (Nat.le_of_eq header.symm),
        List.drop_of_length_le (Nat.le_of_eq header), List.nil_append, List.take_left']
      rfl

end BooleanPacking

namespace BuiltinAlgorithm

theorem groups_flatMap {α : Type} {width : Nat} (hwidth : 0 < width) {write : α → Octets}
    (hwrite : ∀ x, (write x).length = width) (xs : List α) :
    groups width (xs.flatMap write) = xs.map write := by
  induction xs with
  | nil =>
      rw [List.flatMap_nil, groups, if_neg (by simp; omega)]
      rfl
  | cons x xs ih =>
      have length : (write x ++ xs.flatMap write).length = width + (xs.flatMap write).length := by
        rw [List.length_append, hwrite]
      rw [List.flatMap_cons, groups, if_pos (by rw [length]; omega), List.take_left' (hwrite x),
        List.drop_left' (hwrite x), ih, List.map_cons]

theorem fixedWidth_flatMap {α : Type} (b : BuiltinAlgorithm) {width : Nat} (hwidth : 0 < width)
    {write : α → Octets} (hwrite : ∀ x, (write x).length = width) (read : Octets → α)
    (hread : ∀ x, read (write x) = x) (xs : List α) :
    b.fixedWidth width read (xs.flatMap write) = .ok xs := by
  have whole : (xs.flatMap write).length % width = 0 := by
    induction xs with
    | nil => simp
    | cons x xs ih =>
        rw [List.flatMap_cons, List.length_append, hwrite, Nat.add_mod_left, ih]
  rw [fixedWidth, if_pos whole, groups_flatMap hwidth hwrite, List.map_map]
  have same : read ∘ write = fun x => x := funext hread
  rw [same, List.map_id']

/-- What an algorithm packs it unpacks to the same value. -/
theorem decode_of_encode {b : BuiltinAlgorithm} {v : TypedValue} {octets : Octets}
    (h : b.encode v = .ok octets) : b.decode octets = .ok v := by
  unfold encode at h
  split at h
  · cases h; rfl
  · cases h; rfl
  · next xs =>
      cases h
      have := fixedWidth_flatMap .short (by decide) (fun x => length_bigEndian 2 x.toUInt16.toNat)
        (fun g => (UInt16.ofNat (ofBigEndian g)).toInt16) (fun x => by
          rw [ofBigEndian_bigEndian_of_lt x.toUInt16.toNat_lt, UInt16.ofNat_toNat,
            Int16.toInt16_toUInt16]) xs
      rw [decode, this]
      rfl
  · next xs =>
      cases h
      have := fixedWidth_flatMap .int (by decide) (fun x => length_bigEndian 4 x.toUInt32.toNat)
        (fun g => (UInt32.ofNat (ofBigEndian g)).toInt32) (fun x => by
          rw [ofBigEndian_bigEndian_of_lt x.toUInt32.toNat_lt, UInt32.ofNat_toNat,
            Int32.toInt32_toUInt32]) xs
      rw [decode, this]
      rfl
  · next xs =>
      cases h
      have := fixedWidth_flatMap .long (by decide) (fun x => length_bigEndian 8 x.toUInt64.toNat)
        (fun g => (UInt64.ofNat (ofBigEndian g)).toInt64) (fun x => by
          rw [ofBigEndian_bigEndian_of_lt x.toUInt64.toNat_lt, UInt64.ofNat_toNat,
            Int64.toInt64_toUInt64]) xs
      rw [decode, this]
      rfl
  · next xs =>
      cases h
      rw [decode, BooleanPacking.unpack_pack]
  · next xs =>
      cases h
      have := fixedWidth_flatMap .float (by decide) (fun x => length_bigEndian 4 x.toNat)
        (fun g => UInt32.ofNat (ofBigEndian g)) (fun x => by
          rw [ofBigEndian_bigEndian_of_lt x.toNat_lt, UInt32.ofNat_toNat]) xs
      rw [decode, this]
      rfl
  · next xs =>
      cases h
      have := fixedWidth_flatMap .double (by decide) (fun x => length_bigEndian 8 x.toNat)
        (fun g => UInt64.ofNat (ofBigEndian g)) (fun x => by
          rw [ofBigEndian_bigEndian_of_lt x.toNat_lt, UInt64.ofNat_toNat]) xs
      rw [decode, this]
      rfl
  · next xs =>
      cases h
      have := fixedWidth_flatMap .uuid (by decide) (fun u => length_bigEndian 16 u.number.toNat)
        Uuid.ofOctets (fun u => by
          rw [Uuid.ofOctets, ofBigEndian_bigEndian_of_lt u.number.isLt, BitVec.ofNat_toNat,
            BitVec.setWidth_eq]) xs
      change (fixedWidth .uuid 16 Uuid.ofOctets
        (xs.flatMap fun u => bigEndian 16 u.number.toNat)).map TypedValue.uuids = _
      rw [this]
      rfl
  · next s =>
      cases h
      rw [decode, Utf8.decode_encode]
  · cases h

end BuiltinAlgorithm

end BinaryXml
