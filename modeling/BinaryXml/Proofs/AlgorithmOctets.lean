import BinaryXml.Proofs.AlgorithmRoundTrip
import BinaryXml.Proofs.BitGroups
import BinaryXml.Proofs.StrictText

/-!
# Octets of typed values

A built-in algorithm packs every value of its kind, and gives it back from the octets. Octets that
it unpacks are those it packs the value into, so no value has two forms; only the bits that packed
booleans leave unused may be anything when read, and are zeros when written. What an algorithm of
fixed width takes is a matter of the length alone, and packed booleans are refused only for a count
of unused bits that they do not have.
-/

namespace BinaryXml

-- Powers are those of `Nat` alone, whatever algebra is in scope.
attribute [local instance (high)] instPowNat

/-! ## Packed booleans -/

namespace BooleanPacking

open BitGroups

/-- How many bits the first octet says are unused. -/
def announced : Octets → Nat
  | [] => 0
  | first :: _ => first.toNat / 16

/-- The octets with the lowest bits of the last one cleared. -/
def clearLast (count : Nat) : Octets → Octets
  | [] => []
  | [last] => [UInt8.ofNat (last.toNat / 2 ^ count * 2 ^ count)]
  | first :: second :: rest => first :: clearLast count (second :: rest)

theorem octetsOfBits_append {eight more : List Bool} (h : eight.length = 8) :
    octetsOfBits (eight ++ more) = octetOfBits eight :: octetsOfBits more := by
  match eight, h with
  | [a, b, c, d, e, f, g, h], _ => rfl

theorem octetOfBits_eq (bits : List Bool) : octetOfBits bits = UInt8.ofNat (number bits) := rfl

theorem number_replicate_false (count : Nat) : number (List.replicate count false) = 0 := by
  induction count with
  | zero => rfl
  | succ count ih =>
      have zero : number [false] = 0 := rfl
      rw [List.replicate_succ, ← List.singleton_append, number_append, ih, zero, Nat.zero_mul]

/-- The bits in front of the last ones are the octet divided by a power of two. -/
theorem octetOfBits_take (octet : UInt8) {count : Nat} (h : count ≤ 8) :
    octetOfBits ((bitsOfOctet octet).take (8 - count) ++ List.replicate count false) =
      UInt8.ofNat (octet.toNat / 2 ^ count * 2 ^ count) := by
  have split := number_append ((bitsOfOctet octet).take (8 - count))
    ((bitsOfOctet octet).drop (8 - count))
  have below := number_lt ((bitsOfOctet octet).drop (8 - count))
  have length : ((bitsOfOctet octet).drop (8 - count)).length = count := by
    rw [List.length_drop, bitsOfOctet]
    simp only [List.length_cons, List.length_nil]
    omega
  rw [List.take_append_drop, number_bitsOfOctet, length] at split
  rw [length] at below
  have top : octet.toNat / 2 ^ count = number ((bitsOfOctet octet).take (8 - count)) := by
    rw [split, Nat.mul_comm, Nat.mul_add_div (Nat.two_pow_pos count), Nat.div_eq_of_lt below,
      Nat.add_zero]
  rw [octetOfBits_eq, number_append, List.length_replicate, number_replicate_false, top,
    Nat.add_zero]

/-- Zeros for the last bits of a row make zeros of the last bits of the last octet. -/
theorem octetsOfBits_take {octets : Octets} (filled : octets ≠ []) {count : Nat} (h : count ≤ 8) :
    octetsOfBits ((bitsOfOctets octets).take (8 * octets.length - count) ++
      List.replicate count false) = clearLast count octets := by
  induction octets with
  | nil => exact absurd rfl filled
  | cons first rest ih =>
      have eight : (bitsOfOctet first).length = 8 := rfl
      cases rest with
      | nil =>
          have row : bitsOfOctets [first] = bitsOfOctet first := List.append_nil _
          have length : ((bitsOfOctet first).take (8 - count) ++
              List.replicate count false).length = 8 := by
            rw [List.length_append, List.length_take, List.length_replicate, eight]
            omega
          rw [row, List.length_singleton, Nat.mul_one,
            ← List.append_nil ((bitsOfOctet first).take (8 - count) ++ _),
            octetsOfBits_append length, octetOfBits_take first h]
          rfl
      | cons second rest =>
          have more : 8 * (first :: second :: rest).length - count =
              (bitsOfOctet first).length + (8 * (second :: rest).length - count) := by
            rw [eight]
            simp only [List.length_cons]
            omega
          rw [bitsOfOctets_cons, more, List.take_length_add_append, List.append_assoc,
            octetsOfBits_append eight, ih (List.cons_ne_nil _ _), octetOfBits_eq,
            number_bitsOfOctet, UInt8.ofNat_toNat, clearLast]

/-- Booleans are there unless the octets end before the bits that are said to be unused. -/
theorem unpack_eq_ok_iff {octets : Octets} {values : List Bool} :
    unpack octets = .ok values ↔
      (octets ≠ [] ∧ announced octets ≤ 7 ∧ 4 + announced octets ≤ 8 * octets.length) ∧
        values =
          ((bitsOfOctets octets).drop 4).take (8 * octets.length - 4 - announced octets) := by
  cases octets with
  | nil => simp [unpack]
  | cons first rest =>
      rw [unpack, announced, Nat.mul_comm 8]
      by_cases short : 7 < first.toNat / 16 || (first :: rest).length * 8 < 4 + first.toNat / 16
      · rw [if_pos short]
        simp only [Bool.or_eq_true, decide_eq_true_eq] at short
        constructor
        · intro failed
          cases failed
        · rintro ⟨⟨-, few, enough⟩, -⟩
          omega
      · rw [if_neg short, Except.ok.injEq, eq_comm]
        simp only [Bool.or_eq_true, decide_eq_true_eq, not_or, Nat.not_lt] at short
        exact ⟨fun same => ⟨⟨List.cons_ne_nil _ _, short⟩, same⟩, fun h => h.2⟩

/-- The count of unused bits is written as it was read. -/
theorem drop_bitsOfOctet_ofNat (first : UInt8) :
    (bitsOfOctet (UInt8.ofNat (first.toNat / 16))).drop 4 = (bitsOfOctet first).take 4 := by
  have narrow : (UInt8.ofNat (first.toNat / 16)).toNat = first.toNat / 16 :=
    Utf8.toNat_ofNat (Nat.lt_of_le_of_lt (Nat.div_le_self _ _) first.toNat_lt)
  simp only [bitsOfOctet, narrow, Nat.div_div_eq_div_mul, List.drop_succ_cons, List.drop_zero,
    List.take_succ_cons, List.take_zero]

/-- Booleans are packed into the octets that they were unpacked from, with the unused bits
cleared. -/
theorem pack_of_unpack {octets : Octets} {values : List Bool} (h : unpack octets = .ok values) :
    pack values = clearLast (announced octets) octets := by
  obtain ⟨⟨filled, few, enough⟩, rfl⟩ := unpack_eq_ok_iff.1 h
  have length := length_bitsOfOctets octets
  have unused : unusedBits (((bitsOfOctets octets).drop 4).take
      (8 * octets.length - 4 - announced octets)).length = announced octets := by
    rw [List.length_take, List.length_drop, length, unusedBits]
    omega
  have header : (bitsOfOctet (UInt8.ofNat (announced octets))).drop 4 =
      (bitsOfOctets octets).take 4 := by
    cases octets with
    | nil => exact absurd rfl filled
    | cons first rest =>
        rw [announced, drop_bitsOfOctet_ofNat, bitsOfOctets_cons]
        rfl
  have row : (bitsOfOctets octets).take (8 * octets.length - announced octets) =
      (bitsOfOctets octets).take 4 ++ ((bitsOfOctets octets).drop 4).take
        (8 * octets.length - 4 - announced octets) := by
    rw [← List.take_add]
    congr 1
    omega
  rw [pack, unused, header, ← row, octetsOfBits_take filled (by omega)]

end BooleanPacking

/-! ## Values of fixed width -/

namespace BuiltinAlgorithm

theorem flatMap_groups {width : Nat} {write : Octets → Octets}
    (hwrite : ∀ g, g.length = width → write g = g) {octets : Octets}
    (whole : octets.length % width = 0) : (groups width octets).flatMap write = octets := by
  fun_induction groups width octets with
  | case1 octets room ih =>
      have length : (octets.take width).length = width := by
        rw [List.length_take]
        omega
      have rest : (octets.drop width).length % width = 0 := by
        rw [List.length_drop, ← Nat.mod_eq_sub_mod room.2, whole]
      rw [List.flatMap_cons, hwrite _ length, ih rest, List.take_append_drop]
  | case2 octets short =>
      have empty : octets.length = 0 := by
        by_cases positive : 0 < width
        · rwa [Nat.mod_eq_of_lt (by omega)] at whole
        · rwa [Nat.eq_zero_of_not_pos positive, Nat.mod_zero] at whole
      rw [List.length_eq_zero_iff.1 empty]
      rfl

section FixedWidth

variable {α : Type} {b : BuiltinAlgorithm} {width : Nat} {read : Octets → α} {octets : Octets}
  {xs : List α}

theorem fixedWidth_eq_ok_iff : b.fixedWidth width read octets = .ok xs ↔
    width ∣ octets.length ∧ (groups width octets).map read = xs := by
  unfold fixedWidth
  rw [Nat.dvd_iff_mod_eq_zero]
  split
  · next whole => simp [whole]
  · next cut => simp [cut]

/-- Words that keep the number in their octets are written as the octets they were read from. -/
theorem flatMap_of_fixedWidth {number : α → Nat}
    (kept : ∀ g, ofBigEndian g < 256 ^ width → number (read g) = ofBigEndian g)
    (h : b.fixedWidth width read octets = .ok xs) :
    xs.flatMap (fun x => bigEndian width (number x)) = octets := by
  obtain ⟨whole, rfl⟩ := fixedWidth_eq_ok_iff.1 h
  rw [List.flatMap_map]
  refine flatMap_groups (fun g length => ?_) (Nat.mod_eq_zero_of_dvd whole)
  rw [kept g (length ▸ ofBigEndian_lt g), ← length, bigEndian_ofBigEndian]

/-- An algorithm of fixed width takes exactly the octets that its values fill. -/
theorem exists_map_fixedWidth_iff {wrap : List α → TypedValue} :
    (∃ v, (b.fixedWidth width read octets).map wrap = .ok v) ↔ width ∣ octets.length := by
  constructor
  · rintro ⟨v, h⟩
    obtain ⟨xs, taken, -⟩ := eq_ok_of_map h
    exact (fixedWidth_eq_ok_iff.1 taken).1
  · intro whole
    refine ⟨wrap ((groups width octets).map read), ?_⟩
    rw [fixedWidth_eq_ok_iff.2 ⟨whole, rfl⟩]
    rfl

end FixedWidth

/-! ## What an algorithm takes -/

/-- An algorithm packs values of one kind. -/
def Takes : BuiltinAlgorithm → TypedValue → Prop
  | hexadecimal, .octets _ | base64, .octets _ | short, .shorts _ | int, .ints _ | long, .longs _
  | boolean, .booleans _ | float, .floats _ | double, .doubles _ | uuid, .uuids _
  | cdata, .text _ => True
  | _, _ => False

/-- How many octets each value of a list takes, if it is the same for all. -/
def octetsPerValue? : BuiltinAlgorithm → Option Nat
  | short => some 2
  | int | float => some 4
  | long | double => some 8
  | uuid => some 16
  | hexadecimal | base64 | boolean | cdata => none

/-- The octets that an algorithm writes for what it reads from these. -/
def canonical (b : BuiltinAlgorithm) (octets : Octets) : Octets :=
  if b = boolean then BooleanPacking.clearLast (BooleanPacking.announced octets) octets else octets

variable {b : BuiltinAlgorithm} {v : TypedValue} {octets : Octets}

theorem exists_encode_of_takes (h : b.Takes v) : ∃ octets, b.encode v = .ok octets := by
  unfold Takes at h
  split at h
  case h_11 => exact h.elim
  all_goals exact ⟨_, rfl⟩

theorem encode_of_decode (h : b.decode octets = .ok v) :
    b.Takes v ∧ b.encode v = .ok (b.canonical octets) := by
  cases b with
  | hexadecimal | base64 =>
      cases h
      exact ⟨trivial, rfl⟩
  | short =>
      obtain ⟨xs, taken, rfl⟩ := eq_ok_of_map h
      refine ⟨trivial, congrArg Except.ok (flatMap_of_fixedWidth (fun g below => ?_) taken)⟩
      rw [UInt16.toUInt16_toInt16, UInt16.toNat_ofNat', Nat.mod_eq_of_lt below]
  | int =>
      obtain ⟨xs, taken, rfl⟩ := eq_ok_of_map h
      refine ⟨trivial, congrArg Except.ok (flatMap_of_fixedWidth (fun g below => ?_) taken)⟩
      rw [UInt32.toUInt32_toInt32, UInt32.toNat_ofNat', Nat.mod_eq_of_lt below]
  | long =>
      obtain ⟨xs, taken, rfl⟩ := eq_ok_of_map h
      refine ⟨trivial, congrArg Except.ok (flatMap_of_fixedWidth (fun g below => ?_) taken)⟩
      rw [UInt64.toUInt64_toInt64, UInt64.toNat_ofNat', Nat.mod_eq_of_lt below]
  | float =>
      obtain ⟨xs, taken, rfl⟩ := eq_ok_of_map h
      refine ⟨trivial, congrArg Except.ok (flatMap_of_fixedWidth (fun g below => ?_) taken)⟩
      rw [UInt32.toNat_ofNat', Nat.mod_eq_of_lt below]
  | double =>
      obtain ⟨xs, taken, rfl⟩ := eq_ok_of_map h
      refine ⟨trivial, congrArg Except.ok (flatMap_of_fixedWidth (fun g below => ?_) taken)⟩
      rw [UInt64.toNat_ofNat', Nat.mod_eq_of_lt below]
  | uuid =>
      obtain ⟨xs, taken, rfl⟩ := eq_ok_of_map h
      refine ⟨trivial, congrArg Except.ok (flatMap_of_fixedWidth (fun g below => ?_) taken)⟩
      rw [Uuid.ofOctets, BitVec.toNat_ofNat, Nat.mod_eq_of_lt below]
  | boolean =>
      rw [decode] at h
      split at h
      · next xs unpacked =>
          cases h
          refine ⟨trivial, ?_⟩
          rw [encode, BooleanPacking.pack_of_unpack unpacked]
          rfl
      · cases h
  | cdata =>
      rw [decode] at h
      split at h
      · next text decoded =>
          cases h
          refine ⟨trivial, ?_⟩
          rw [encode, Utf8.encode_of_decode decoded]
          rfl
      · cases h

theorem exists_decode_iff_dvd {width : Nat} (h : b.octetsPerValue? = some width) :
    (∃ v, b.decode octets = .ok v) ↔ width ∣ octets.length := by
  cases b with
  | hexadecimal | base64 | boolean | cdata => cases h
  | short | int | long | float | double | uuid =>
      cases h
      exact exists_map_fixedWidth_iff

theorem exists_decode_boolean_iff : (∃ v, boolean.decode octets = .ok v) ↔
    octets ≠ [] ∧ BooleanPacking.announced octets ≤ 7 ∧
      4 + BooleanPacking.announced octets ≤ 8 * octets.length := by
  rw [decode]
  constructor
  · rintro ⟨v, h⟩
    split at h
    · next xs unpacked => exact (BooleanPacking.unpack_eq_ok_iff.1 unpacked).1
    · cases h
  · intro room
    rw [BooleanPacking.unpack_eq_ok_iff.2 ⟨room, rfl⟩]
    exact ⟨_, rfl⟩

/-- Every value of its kind comes back from the octets that an algorithm packs it into, and octets
that it unpacks come back but for the bits that packed booleans leave unused. It refuses only
octets of a length that its values do not fill, and booleans that announce more unused bits than an
octet or the octets have. -/
theorem exact_on_octets (b : BuiltinAlgorithm) :
    (∀ v, b.Takes v → ∃ octets, b.encode v = .ok octets ∧ b.decode octets = .ok v) ∧
    (∀ octets v, b.decode octets = .ok v →
      b.Takes v ∧ b.encode v = .ok (b.canonical octets)) ∧
    (∀ width, b.octetsPerValue? = some width → ∀ octets,
      (∃ v, b.decode octets = .ok v) ↔ width ∣ octets.length) ∧
    (b = boolean → ∀ octets, (∃ v, b.decode octets = .ok v) ↔
      octets ≠ [] ∧ BooleanPacking.announced octets ≤ 7 ∧
        4 + BooleanPacking.announced octets ≤ 8 * octets.length) := by
  refine ⟨fun v taken => ?_, fun octets v => encode_of_decode,
    fun width h octets => exists_decode_iff_dvd h, ?_⟩
  · obtain ⟨octets, packed⟩ := exists_encode_of_takes taken
    exact ⟨octets, packed, decode_of_encode packed⟩
  · rintro rfl octets
    exact exists_decode_boolean_iff

/-- Of five unused bits in two octets the set ones are cleared. -/
theorem exact_on_octets_unused :
    boolean.decode [0x5A, 0x3F] = .ok (.booleans [true, false, true, false, false, false, true]) ∧
      boolean.encode (.booleans [true, false, true, false, false, false, true]) =
        .ok [0x5A, 0x20] := by
  have unpacked : boolean.decode [0x5A, 0x3F] =
      .ok (.booleans [true, false, true, false, false, false, true]) := rfl
  exact ⟨unpacked, ((exact_on_octets boolean).2.1 _ _ unpacked).2⟩

end BuiltinAlgorithm

end BinaryXml
