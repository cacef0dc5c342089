import BinaryXml.Proofs.EncodingRoundTrip
import BinaryXml.Proofs.LadderRoundTrip

/-!
# Reading back representations

Each written form of a string is read back as the representation it was written for, up to the
demand to be entered into a table: identifying strings always make it, empty ones never do.
-/

namespace BinaryXml

-- Powers are those of `Nat` alone, whatever algebra is in scope.
attribute [local instance (high)] instPowNat

namespace Representation

/-- An identifying string asks to be entered whether it says so or not. -/
def asIdentifying : Representation → Representation
  | literal value _ => literal value true
  | indexed index => indexed index
  | packed packing id octets add => packed packing id octets add

/-- The empty string has a form of its own, without room for the demand to enter it. -/
def asNonIdentifying : Representation → Representation
  | literal value add => literal value (add && !value.isEmpty)
  | indexed index => indexed index
  | packed packing id octets add => packed packing id octets add

/-! ## Identifying strings -/

theorem yields_readIdentifying {r : Representation} {octets : Octets}
    (h : r.emitIdentifying.toExcept = .ok octets) :
    Yields readIdentifying octets r.asIdentifying := by
  cases r with
  | literal value add =>
      obtain ⟨first, tail, rfl, opens, yields⟩ :=
        Ladder.yields_of_emitString Ladder.sound_lengthOnSecondBit (by decide) h
      have kept : first.toNat / 128 = 0 := opens.fixed_eq
      refine (Parser.yields_octet first).bind.yields ?_
      rw [if_pos (by omega)]
      refine yields.bind.done ?_
      exact (Parser.yields_text (CharacterEncoding.decode_encode .utf8 value)).bind
  | indexed index =>
      obtain ⟨first, tail, rfl, opens, yields⟩ :=
        Ladder.yields_of_emitIndex Ladder.sound_indexOnSecondBit (by decide) h
      have kept : first.toNat / 128 = 1 := opens.fixed_eq
      refine (Parser.yields_octet first).bind.yields ?_
      rw [if_neg (by omega)]
      exact yields.bind
  | packed => cases h

/-! ## The bits in front of a string -/

@[simp] theorem Manner.ofDiscriminant_encoding (encoding : CharacterEncoding) :
    Manner.ofDiscriminant encoding.discriminant = .encoded encoding := by
  cases encoding <;> rfl

@[simp] theorem Manner.ofDiscriminant_packing (packing : Packing) :
    Manner.ofDiscriminant packing.discriminant = .packed packing := by
  cases packing <;> rfl

theorem discriminant_lt (encoding : CharacterEncoding) : encoding.discriminant < 4 := by
  cases encoding <;> decide

theorem packing_discriminant_lt (packing : Packing) : packing.discriminant < 4 := by
  cases packing <;> decide

theorem beq_toNat (add : Bool) : (add.toNat == 1) = add := by
  cases add <;> rfl

/-- What an octet tells in front of the free bits of a ladder: its kind, the demand to enter the
string, and the manner in which it is given. -/
structure Tells (l : Ladder) (octet : UInt8) (kind : Nat) (add : Bool) (discriminant : Nat) :
    Prop where
  kind : octet.toNat / 2 ^ l.free / 8 = kind
  demand : octet.toNat / 2 ^ l.free / 4 % 2 = add.toNat
  manner : octet.toNat / 2 ^ l.free % 4 = discriminant

/-- The free bits have no say in what an octet tells. -/
theorem Tells.of_opens {l : Ladder} {fixed first : UInt8} {kind discriminant : Nat} {add : Bool}
    (h : Tells l fixed kind add discriminant) (opens : l.Opens fixed first) :
    Tells l first kind add discriminant := by
  obtain ⟨kind, demand, manner⟩ := h
  rw [← opens.fixed_eq] at kind demand manner
  exact ⟨kind, demand, manner⟩

/-- The discriminant and the free bits are joined to the marks for the kind and the demand. -/
theorem tells_of_marks {l : Ladder} (room : l.free ≤ 5) {marks : UInt8} {kind discriminant n : Nat}
    {add : Bool} (marked : marks.toNat = (8 * kind + 4 * add.toNat) * 2 ^ l.free)
    (known : discriminant < 4) (small : n < 2 ^ l.free) :
    Tells l (marks ||| UInt8.ofNat (discriminant * 2 ^ l.free + n)) kind add discriminant ∧
      (marks ||| UInt8.ofNat (discriminant * 2 ^ l.free + n)).toNat % 2 ^ l.free = n := by
  have four : 2 ^ (l.free + 2) = 4 * 2 ^ l.free := by
    rw [Nat.pow_add, Nat.mul_comm]
  have zero : marks.toNat % 2 ^ (l.free + 2) = 0 := by
    have whole : marks.toNat = (2 * kind + add.toNat) * 2 ^ (l.free + 2) := by
      rw [marked, four, ← Nat.mul_assoc]
      congr 1
      omega
    rw [whole, Nat.mul_mod_left]
  have below : discriminant * 2 ^ l.free + n < 2 ^ (l.free + 2) := by
    have := Nat.mul_le_mul_right (2 ^ l.free) (Nat.le_of_lt_succ known)
    omega
  have total : (marks ||| UInt8.ofNat (discriminant * 2 ^ l.free + n)).toNat =
      2 ^ l.free * (8 * kind + 4 * add.toNat + discriminant) + n := by
    rw [toNat_or_ofNat (by omega) zero below, marked, ← Nat.add_assoc, ← Nat.add_mul, Nat.mul_comm]
  constructor
  · have front : (marks ||| UInt8.ofNat (discriminant * 2 ^ l.free + n)).toNat / 2 ^ l.free =
        8 * kind + 4 * add.toNat + discriminant := by
      rw [total, Nat.mul_add_div (Nat.two_pow_pos _), Nat.div_eq_of_lt small, Nat.add_zero]
    have addBound := Bool.toNat_le add
    constructor <;> rw [front] <;> omega
  · rw [total, Nat.mul_add_mod, Nat.mod_eq_of_lt small]

/-! ## Strings that are no index -/

section Manner

variable {l : Ladder} {first : UInt8} {kind : Nat} {add : Bool} {encoding : CharacterEncoding}
  {packing : Packing} {octets : Octets}

theorem readInManner_encoded (tells : Tells l first kind add encoding.discriminant) :
    readInManner l first = do
      let octets ← l.readString first
      let value ← Parser.text encoding octets
      return literal value add := by
  rw [readInManner, tells.manner, tells.demand, beq_toNat, Manner.ofDiscriminant_encoding]

theorem readInManner_packed (tells : Tells l first kind add packing.discriminant) :
    readInManner l first = do
      let second ← Parser.octet
      let octets ← l.readString second
      return packed packing (UInt8.ofNat
        (first.toNat % 2 ^ l.free * 2 ^ (8 - l.free) + second.toNat / 2 ^ l.free)) octets add := by
  rw [readInManner, tells.manner, tells.demand, beq_toNat, Manner.ofDiscriminant_packing]

/-- The free bits of the octet that tells of a literal begin its length. -/
theorem yields_literal (sound : l.Sound) {value : String} {fixed : UInt8}
    (tells : Tells l fixed kind add encoding.discriminant)
    (aligned : fixed.toNat % 2 ^ l.free = 0)
    (h : (l.emitString fixed (encoding.encode value)).toExcept = .ok octets) :
    ∃ first tail, octets = first :: tail ∧ Tells l first kind add encoding.discriminant ∧
      Yields (readInManner l first) tail (literal value add) := by
  obtain ⟨first, tail, rfl, opens, yields⟩ := Ladder.yields_of_emitString sound aligned h
  refine ⟨first, tail, rfl, tells.of_opens opens, ?_⟩
  rw [readInManner_encoded (tells.of_opens opens)]
  refine yields.bind.done ?_
  exact (Parser.yields_text (CharacterEncoding.decode_encode encoding value)).bind

/-- The free bits of the octet that tells of packed octets hold the high bits of the identifier.
The low bits follow in front of the length. -/
theorem yields_packed (sound : l.Sound) {id : UInt8} {value : Octets}
    (tells : Tells l first kind add packing.discriminant)
    (high : first.toNat % 2 ^ l.free = id.toNat / 2 ^ (8 - l.free))
    (h : (l.emitString (UInt8.ofNat (id.toNat % 2 ^ (8 - l.free) * 2 ^ l.free)) value).toExcept =
      .ok octets) :
    Yields (readInManner l first) octets (packed packing id value add) := by
  have whole : 2 ^ (8 - l.free) * 2 ^ l.free = 256 := by
    rw [← Nat.pow_add, Nat.sub_add_cancel sound.free_le]
  have small : id.toNat % 2 ^ (8 - l.free) * 2 ^ l.free < 256 := by
    rw [← whole]
    exact Nat.mul_lt_mul_of_pos_right (Nat.mod_lt _ (Nat.two_pow_pos _)) (Nat.two_pow_pos _)
  have fixed := Utf8.toNat_ofNat small
  obtain ⟨second, tail, rfl, opens, yields⟩ :=
    Ladder.yields_of_emitString sound (by rw [fixed]; exact Nat.mul_mod_left _ _) h
  have low : second.toNat / 2 ^ l.free = id.toNat % 2 ^ (8 - l.free) := by
    rw [opens.fixed_eq, fixed, Nat.mul_div_cancel _ (Nat.two_pow_pos _)]
  rw [readInManner_packed tells]
  refine (Parser.yields_octet second).bind.yields ?_
  rw [high, low, Nat.div_add_mod', UInt8.ofNat_toNat]
  exact yields.bind

end Manner

/-! ## Non-identifying strings -/

theorem marks_nonIdentifying (add : Bool) :
    (flagBit add 0x40).toNat = (8 * 0 + 4 * add.toNat) * 2 ^ lengthOnFifthBit.free := by
  cases add <;> rfl

theorem yields_readNonIdentifying_manner {first : UInt8} {tail : Octets} {r : Representation}
    {add : Bool} {discriminant : Nat} (tells : Tells lengthOnFifthBit first 0 add discriminant)
    (h : Yields (readInManner lengthOnFifthBit first) tail r) :
    Yields readNonIdentifying (first :: tail) r := by
  have kind : first.toNat / 16 / 8 = 0 := tells.kind
  have notEmpty : first ≠ emptyString := by
    rintro rfl
    exact absurd kind (by decide)
  refine (Parser.yields_octet first).bind.yields ?_
  rw [if_neg notEmpty, if_neg (by omega)]
  exact h

theorem yields_readNonIdentifying {encoding : CharacterEncoding} {r : Representation}
    {octets : Octets} (h : (r.emitNonIdentifying encoding).toExcept = .ok octets) :
    Yields readNonIdentifying octets r.asNonIdentifying := by
  cases r with
  | literal value add =>
      rw [emitNonIdentifying] at h
      split at h
      · next blank =>
          cases h
          have same : (literal value add).asNonIdentifying = literal "" false := by
            have : value = "" := by simpa using blank
            subst this
            cases add <;> rfl
          rw [same]
          exact (Parser.yields_octet emptyString).bind
      · next filled =>
          have same : (literal value add).asNonIdentifying = literal value add := by
            simp [asNonIdentifying, filled]
          obtain ⟨tells, aligned⟩ := tells_of_marks (by decide) (marks_nonIdentifying add)
            (discriminant_lt encoding) (Nat.two_pow_pos _)
          obtain ⟨first, tail, rfl, tells, yields⟩ :=
            yields_literal Ladder.sound_lengthOnFifthBit tells aligned h
          rw [same]
          exact yields_readNonIdentifying_manner tells yields
  | indexed index =>
      obtain ⟨first, tail, rfl, opens, yields⟩ :=
        Ladder.yields_of_emitIndex Ladder.sound_indexOnSecondBit (by decide) h
      have kept : first.toNat / 128 = 1 := opens.fixed_eq
      have notEmpty : first ≠ emptyString := by
        rintro rfl
        exact absurd (opens.free_lt 112 (by decide)) (by decide)
      refine (Parser.yields_octet first).bind.yields ?_
      rw [if_neg notEmpty, if_pos (by omega)]
      exact yields.bind
  | packed packing id octets add =>
      rw [emitNonIdentifying] at h
      split at h
      · cases h
      · obtain ⟨front, back, hfront, hback, rfl⟩ := Emission.toExcept_append_eq_ok.1 h
        cases hfront
        have small : id.toNat / 16 < 16 := Nat.div_lt_of_lt_mul id.toNat_lt
        obtain ⟨tells, high⟩ := tells_of_marks (by decide) (marks_nonIdentifying add)
          (packing_discriminant_lt packing) small
        exact yields_readNonIdentifying_manner tells
          (yields_packed Ladder.sound_lengthOnFifthBit tells high hback)

/-! ## Chunks of character content -/

theorem marks_chunk (add : Bool) :
    (0x80 ||| flagBit add 0x10).toNat = (8 * 4 + 4 * add.toNat) * 2 ^ lengthOnSeventhBit.free := by
  cases add <;> rfl

theorem yields_readChunk_manner {first : UInt8} {tail : Octets} {r : Representation} {add : Bool}
    {discriminant : Nat} (tells : Tells lengthOnSeventhBit first 4 add discriminant)
    (h : Yields (readInManner lengthOnSeventhBit first) tail r) :
    first.toNat / 64 = 2 ∧ Yields (readChunk first) tail r := by
  have kind : first.toNat / 4 / 8 = 4 := tells.kind
  have chunk : first.toNat / 64 = 2 := by omega
  refine ⟨chunk, ?_⟩
  rw [readChunk, chunk, if_neg (by decide), if_neg (by omega)]
  exact h

theorem yields_readChunk {encoding : CharacterEncoding} {r : Representation} {octets : Octets}
    (h : (r.emitChunk encoding).toExcept = .ok octets) :
    ∃ first tail, octets = first :: tail ∧ first.toNat / 64 = 2 ∧
      Yields (readChunk first) tail r := by
  cases r with
  | literal value add =>
      rw [emitChunk] at h
      split at h
      · cases h
      · obtain ⟨tells, aligned⟩ := tells_of_marks (by decide) (marks_chunk add)
          (discriminant_lt encoding) (Nat.two_pow_pos _)
        obtain ⟨first, tail, rfl, tells, yields⟩ :=
          yields_literal Ladder.sound_lengthOnSeventhBit tells aligned h
        exact ⟨first, tail, rfl, yields_readChunk_manner tells yields⟩
  | indexed index =>
      obtain ⟨first, tail, rfl, opens, yields⟩ :=
        Ladder.yields_of_emitIndex Ladder.sound_indexOnFourthBit (by decide) h
      have kept : first.toNat / 32 = 5 := opens.fixed_eq
      have chunk : first.toNat / 64 = 2 := by omega
      refine ⟨first, tail, rfl, chunk, ?_⟩
      rw [readChunk, chunk, if_neg (by decide), if_pos (by omega)]
      exact yields.bind
  | packed packing id octets add =>
      rw [emitChunk] at h
      split at h
      · cases h
      · obtain ⟨front, back, hfront, hback, rfl⟩ := Emission.toExcept_append_eq_ok.1 h
        cases hfront
        have small : id.toNat / 64 < 4 := Nat.div_lt_of_lt_mul id.toNat_lt
        obtain ⟨tells, high⟩ := tells_of_marks (by decide) (marks_chunk add)
          (packing_discriminant_lt packing) small
        exact ⟨_, _, rfl, yields_readChunk_manner tells
          (yields_packed Ladder.sound_lengthOnSeventhBit tells high hback)⟩

end Representation

end BinaryXml
