import BinaryXml.BooleanPacking
import BinaryXml.Proofs.AlphabetPacking

/-!
# Packed text as groups of bits

Octets are a row of bits, most significant first, and packed text is what the complete groups of
such a row say, each as wide as a code, up to the first group of zeros. Unpacking any octets at all
gives the characters at these positions, or fails with the first number that no character has.
-/

namespace BinaryXml

-- Powers are those of `Nat` alone, whatever algebra is in scope.
attribute [local instance (high)] instPowNat

namespace BooleanPacking

theorem bitsOfOctets_cons (first : UInt8) (rest : Octets) :
    bitsOfOctets (first :: rest) = bitsOfOctet first ++ bitsOfOctets rest := List.flatMap_cons

end BooleanPacking

open BooleanPacking

namespace BitGroups

/-- The number that bits are, most significant first. -/
def number (bits : List Bool) : Nat := bits.foldl (fun n bit => n * 2 + bit.toNat) 0

/-- The complete groups of bits in a row. -/
def groups (width : Nat) (bits : List Bool) : List (List Bool) :=
  (List.range (bits.length / width)).map fun i => (bits.drop (i * width)).take width

/-- The numbers of the groups before the first one of zeros. -/
def codes (width : Nat) (octets : Octets) : List Nat :=
  ((groups width (bitsOfOctets octets)).map number).takeWhile fun code => code ≠ 0

/-- Bits behind a number move it up by their count. -/
theorem foldl_bits (start : Nat) (bits : List Bool) :
    bits.foldl (fun n bit => n * 2 + bit.toNat) start =
      start * 2 ^ bits.length + number bits := by
  induction bits generalizing start with
  | nil => simp [number]
  | cons bit bits ih =>
      simp only [List.foldl_cons, number, List.length_cons]
      rw [ih, ih (0 * 2 + bit.toNat), Nat.pow_succ, Nat.zero_mul, Nat.zero_add, Nat.add_mul,
        Nat.mul_assoc, Nat.mul_comm 2, Nat.add_assoc]

theorem number_append (front back : List Bool) :
    number (front ++ back) = number front * 2 ^ back.length + number back := by
  rw [number, List.foldl_append, foldl_bits]
  rfl

theorem number_lt (bits : List Bool) : number bits < 2 ^ bits.length := by
  induction bits with
  | nil => decide
  | cons bit bits ih =>
      have split := number_append [bit] bits
      have one : number [bit] < 2 ^ 1 := by cases bit <;> decide
      rw [List.singleton_append] at split
      rw [split, List.length_cons, Nat.add_comm bits.length]
      exact Alphabet.behind_lt one ih

theorem number_bitsOfOctet (octet : UInt8) : number (bitsOfOctet octet) = octet.toNat := by
  have bit (n : Nat) : (n % 2 == 1).toNat = n % 2 := by
    rcases Nat.mod_two_eq_zero_or_one n with even | odd
    · rw [even]; rfl
    · rw [odd]; rfl
  have next (p : Nat) : octet.toNat / (p * 2) * 2 + octet.toNat / p % 2 = octet.toNat / p := by
    rw [← Nat.div_div_eq_div_mul, Nat.div_add_mod']
  have none : octet.toNat / (128 * 2) = 0 := Nat.div_eq_of_lt octet.toNat_lt
  have last := next 1
  rw [Nat.div_one] at last
  simp only [number, bitsOfOctet, List.foldl_cons, List.foldl_nil, bit]
  rw [← none, next 128, next 64, next 32, next 16, next 8, next 4, next 2, last]

theorem length_bitsOfOctets (octets : Octets) :
    (bitsOfOctets octets).length = 8 * octets.length := by
  induction octets with
  | nil => rfl
  | cons octet rest ih =>
      rw [bitsOfOctets_cons, List.length_append, ih, List.length_cons, bitsOfOctet]
      simp only [List.length_cons, List.length_nil]
      omega

theorem number_bitsOfOctets (octets : Octets) :
    number (bitsOfOctets octets) = ofBigEndian octets := by
  induction octets with
  | nil => rfl
  | cons octet rest ih =>
      rw [bitsOfOctets_cons, number_append, number_bitsOfOctet, ih, length_bitsOfOctets,
        ofBigEndian_cons, show 256 = 2 ^ 8 from rfl, ← Nat.pow_mul]

theorem groups_of_lt {width : Nat} {bits : List Bool} (short : bits.length < width) :
    groups width bits = [] := by
  rw [groups, Nat.div_eq_of_lt short]
  rfl

theorem groups_of_le {width : Nat} (positive : 0 < width) {bits : List Bool}
    (enough : width ≤ bits.length) :
    groups width bits = bits.take width :: groups width (bits.drop width) := by
  have count : bits.length / width = (bits.drop width).length / width + 1 := by
    rw [List.length_drop, ← Nat.add_div_right _ positive, Nat.sub_add_cancel enough]
  rw [groups, count, List.range_succ_eq_map, List.map_cons, List.map_map, groups]
  congr 1
  · rw [Nat.zero_mul, List.drop_zero]
  · refine List.map_congr_left fun i _ => ?_
    rw [Function.comp_apply, List.drop_drop, Nat.succ_mul, Nat.add_comm]

end BitGroups

namespace Alphabet

open BitGroups

/-- Reads a row of codes up to the first zero. -/
def read (a : Alphabet) (id : UInt8) : List Nat → Except AlphabetError (List Char)
  | [] => .ok []
  | code :: codes =>
    if code = 0 then .ok []
    else
      match a.characters.get? (code - 1) with
      | none => .error (.invalidCode id code)
      | some c => (a.read id codes).map (c :: ·)

variable {a : Alphabet} {characters : String} {id : UInt8}

/-- Codes come off the top of a number as groups of bits come off the front of a row. -/
theorem unpackNumber_eq_read (a : Alphabet) (id : UInt8) (bits : List Bool) :
    a.unpackNumber id (number bits) bits.length =
      a.read id ((groups a.width bits).map number) := by
  have positive : 0 < a.width := Nat.succ_pos _
  induction length : bits.length using Nat.strongRecOn generalizing bits with
  | ind n ih =>
      rw [unpackNumber]
      by_cases enough : a.width ≤ n
      · have back : (bits.drop a.width).length = n - a.width := by rw [List.length_drop, length]
        have split := number_append (bits.take a.width) (bits.drop a.width)
        have below := number_lt (bits.drop a.width)
        rw [List.take_append_drop, back] at split
        rw [back] at below
        have top := div_above (number (bits.take a.width)) 1 below
        have rest := mod_above (number (bits.take a.width)) 1 below
        rw [Nat.mul_one, ← split, Nat.div_one] at top
        rw [Nat.mul_one, ← split, Nat.mod_one, Nat.zero_mul, Nat.zero_add] at rest
        rw [if_pos enough, groups_of_le positive (length ▸ enough), List.map_cons, read]
        dsimp only
        rw [top, rest]
        by_cases zero : number (bits.take a.width) = 0
        · rw [if_pos zero, if_pos zero]
        · rw [if_neg zero, if_neg zero]
          cases a.characters.get? (number (bits.take a.width) - 1) with
          | none => rfl
          | some c =>
              exact congrArg (Except.map (c :: ·))
                (ih (n - a.width) (by omega) (bits.drop a.width) back)
      · rw [if_neg enough, groups_of_lt (length ▸ Nat.lt_of_not_le enough)]
        rfl

theorem decode_eq_read (a : Alphabet) (id : UInt8) (octets : Octets) :
    a.decode id octets =
      (a.read id ((groups a.width (bitsOfOctets octets)).map number)).map String.ofList := by
  rw [decode, unpack_eq_unpackNumber, Nat.zero_mul, Nat.zero_add, Nat.zero_add,
    ← number_bitsOfOctets, ← length_bitsOfOctets, unpackNumber_eq_read]

/-- A code other than zero is that of a character unless it exceeds their number. -/
theorem get?_code (a : Alphabet) {code : Nat} (nonzero : code ≠ 0) :
    a.characters.get? (code - 1) = none ↔ a.size < code := by
  rw [Roster.get?_eq_getElem?, List.getElem?_eq_none_iff, ← size_eq_length]
  omega

theorem read_eq_ok (id : UInt8) {codes : List Nat}
    (known : ∀ code ∈ codes.takeWhile (· ≠ 0), code ≤ a.size) :
    ∃ cs, a.read id codes = .ok cs ∧
      (codes.takeWhile (· ≠ 0)).map (fun code => a.characters.toList[code - 1]?) =
        cs.map some := by
  induction codes with
  | nil => exact ⟨[], rfl, rfl⟩
  | cons code codes ih =>
      rw [read]
      by_cases zero : code = 0
      · exact ⟨[], if_pos zero, by simp [zero]⟩
      · have goesOn : (code :: codes).takeWhile (· ≠ 0) = code :: codes.takeWhile (· ≠ 0) := by
          simp [zero]
        rw [goesOn] at known ⊢
        obtain ⟨cs, rest, places⟩ := ih fun c later => known c (List.mem_cons_of_mem _ later)
        cases found : a.characters.get? (code - 1) with
        | none =>
            have beyond := (a.get?_code zero).1 found
            exact absurd (known code List.mem_cons_self) (Nat.not_le_of_lt beyond)
        | some c =>
            refine ⟨c :: cs, by rw [if_neg zero, rest]; rfl, ?_⟩
            rw [List.map_cons, List.map_cons, places, ← Roster.get?_eq_getElem?, found]

theorem read_eq_error {codes : List Nat} {code : Nat}
    (first : (codes.takeWhile (· ≠ 0)).find? (a.size < ·) = some code) :
    a.read id codes = .error (.invalidCode id code) := by
  induction codes with
  | nil => cases first
  | cons c codes ih =>
      rw [read]
      by_cases zero : c = 0
      · simp [zero] at first
      · have goesOn : (c :: codes).takeWhile (· ≠ 0) = c :: codes.takeWhile (· ≠ 0) := by
          simp [zero]
        rw [goesOn] at first
        rw [if_neg zero]
        by_cases beyond : a.size < c
        · rw [List.find?_cons_of_pos (by simpa using beyond), Option.some.injEq] at first
          rw [(a.get?_code zero).2 beyond, first]
        · rw [List.find?_cons_of_neg (by simpa using beyond)] at first
          cases found : a.characters.get? (c - 1) with
          | none => exact absurd ((a.get?_code zero).1 found) beyond
          | some d => rw [ih first]; rfl

/-- Octets are unpacked to the characters whose numbers the groups of bits before the first zero
group are, if these are numbers of characters, and otherwise the first that is not is reported. The
bits at hand never leave a word. -/
theorem decode_eq_codes (characters : String) (a : Alphabet)
    (accepted : ofString characters = .ok a) (id : UInt8) (octets : Octets) :
    let taken := codes a.width octets
    (characters.toList.length < 2 ^ a.width ∧
      ∀ v, characters.toList.length < 2 ^ v → a.width ≤ v) ∧
    ((∀ code ∈ taken, code ≤ characters.toList.length) →
      ∃ text, a.decode id octets = .ok text ∧
        taken.map (fun code => characters.toList[code - 1]?) = text.toList.map some) ∧
    (∀ code, taken.find? (characters.toList.length < ·) = some code →
      a.decode id octets = .error (.invalidCode id code)) ∧
    a.decodeWord id octets = some (a.decode id octets) := by
  have same := toList_of_ofString accepted
  rw [← size_of_ofString accepted, ← same]
  intro taken
  refine ⟨⟨a.size_lt_two_pow_width, fun v => width_le_of_lt⟩, ?_, ?_, a.decodeWord_eq id octets⟩
  · intro known
    obtain ⟨cs, reads, places⟩ := read_eq_ok id known
    refine ⟨String.ofList cs, by rw [decode_eq_read, reads]; rfl, ?_⟩
    rw [String.toList_ofList]
    exact places
  · intro code first
    rw [decode_eq_read, read_eq_error first]
    rfl

/-- Among three bits the zero group hides what is behind it, and seven is not the number of one of
five characters. -/
theorem decode_eq_codes_abcde :
    ∃ a, ofString "abcde" = .ok a ∧ a.decode 4 [0x28, 0x07] = .ok "ab" ∧
      a.decode 4 [0x2B, 0x80] = .error (.invalidCode 4 7) := by
  have exists_a : ∃ a, ofString "abcde" = .ok a := exists_ofString (by decide) (by decide)
  obtain ⟨a, accepted⟩ := exists_a
  have size : a.size = 5 := size_of_ofString accepted
  have width : a.width = 3 := width_eq (v := 2) (by omega) (by omega)
  obtain ⟨-, hidden, -, -⟩ := decode_eq_codes "abcde" a accepted 4 [0x28, 0x07]
  obtain ⟨-, -, beyond, -⟩ := decode_eq_codes "abcde" a accepted 4 [0x2B, 0x80]
  rw [width] at hidden beyond
  have two : codes 3 [0x28, 0x07] = [1, 2] := by decide
  have three : codes 3 [0x2B, 0x80] = [1, 2, 7] := by decide
  rw [two] at hidden
  rw [three] at beyond
  obtain ⟨text, unpacked, places⟩ := hidden (by decide)
  have characters : text.toList = ['a', 'b'] := List.map_injective_iff.2 (Option.some_injective _)
    (places.symm.trans (by decide))
  refine ⟨a, accepted, ?_, beyond 7 (by decide)⟩
  rw [unpacked, ← String.ofList_toList (s := text), characters]

end Alphabet

end BinaryXml
