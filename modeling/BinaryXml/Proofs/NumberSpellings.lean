import BinaryXml.Proofs.EmissionSuccess
import BinaryXml.Proofs.LadderRoundTrip
import BinaryXml.Proofs.Sequencing
import Mathlib.Data.List.Basic

/-!
# Spellings of numbers

The rungs of a ladder hold disjoint ranges of numbers, so a number that was read is written on the
rung on which it was read, with the same leading value. Its tail is written as it was read, but for
the spare bits in front of it, which are read as anything and written as zeros. Only an index of
four octets has any, and so two spellings of one number differ in those bits and nowhere else.
-/

namespace BinaryXml

-- Powers are those of `Nat` alone, whatever algebra is in scope.
attribute [local instance (high)] instPowNat

namespace Parser

theorem octet_eq_ok {i i' : Input} {o : UInt8} (h : octet i = .ok o i') :
    i.rest = o :: i'.rest ∧ i'.offset = i.offset + 1 := by
  unfold octet at h
  split at h
  · cases h
  · next split =>
      cases h
      exact ⟨split, rfl⟩

/-- A reader of tails takes as many octets as it is told and returns them. -/
def TakesTail (readTail : Nat → Parser Octets) : Prop :=
  ∀ count i tail i', readTail count i = .ok tail i' →
    tail.length = count ∧ i.rest = tail ++ i'.rest ∧ i'.offset = i.offset + count

theorem takesTail_octets : TakesTail octets := by
  intro count
  induction count with
  | zero =>
      intro i tail i' h
      cases h
      exact ⟨rfl, rfl, rfl⟩
  | succ count ih =>
      intro i tail i' h
      obtain ⟨o, j, first, later⟩ := bind_eq_ok h
      obtain ⟨os, k, others, done⟩ := bind_eq_ok later
      cases done
      obtain ⟨split, moved⟩ := octet_eq_ok first
      obtain ⟨length, split', moved'⟩ := ih j os _ others
      refine ⟨by rw [List.length_cons, length], by rw [split, split']; rfl, ?_⟩
      rw [moved', moved, Nat.add_assoc, Nat.add_comm 1]

theorem takesTail_slice : TakesTail slice := by
  intro count i tail i' h
  unfold slice at h
  dsimp only at h
  split at h
  · next enough =>
      cases h
      exact ⟨enough, (List.take_append_drop count i.rest).symm, rfl⟩
  · cases h

end Parser

namespace Rung

variable {limit least value : Nat} {rungs : List Rung}

/-- In a ladder without gaps a number belongs to one rung alone. -/
theorem find?_of_cover (h : Cover limit least rungs) {r : Rung} (mem : r ∈ rungs)
    (begun : r.least ≤ value) (room : value < r.least + r.capacity) :
    rungs.reverse.find? (·.least ≤ value) = some r := by
  induction rungs generalizing least with
  | nil => cases mem
  | cons s rungs ih =>
      obtain ⟨rfl, rest⟩ := h
      rw [List.reverse_cons, List.find?_append]
      rcases List.mem_cons.1 mem with rfl | later
      · have none : rungs.reverse.find? (·.least ≤ value) = none := by
          apply List.find?_eq_none.2
          intro t memt begunt
          have := least_le_of_cover rest t (List.mem_reverse.1 memt)
          simp only [decide_eq_true_eq] at begunt
          omega
        rw [none, Option.none_or, List.find?_singleton]
        simp [begun]
      · rw [ih rest later, Option.some_or]

/-- The tail as it is written: the spare bits of its first octet are zeros. -/
def settled (r : Rung) : Octets → Octets
  | [] => []
  | first :: others => UInt8.ofNat (first.toNat % 2 ^ (8 - r.spare)) :: others

theorem settled_of_spare_eq_zero {r : Rung} (h : r.spare = 0) (tail : Octets) :
    r.settled tail = tail := by
  cases tail with
  | nil => rfl
  | cons first others =>
      rw [settled, h, Nat.mod_eq_of_lt first.toNat_lt, UInt8.ofNat_toNat]

/-- A tail has more octets than it needs for its spare bits. -/
theorem bigEndian_tail (r : Rung) (spare : r.spare ≤ 8 ∧ (r.tail = 0 → r.spare = 0))
    {tail : Octets} (length : tail.length = r.tail) :
    bigEndian r.tail (ofBigEndian tail % r.width) = r.settled tail := by
  cases tail with
  | nil =>
      rw [← length]
      rfl
  | cons first others =>
      have count : r.tail = others.length + 1 := length.symm
      have width : r.width = 256 ^ others.length * 2 ^ (8 - r.spare) := by
        have bits : 8 * r.tail - r.spare = 8 * others.length + (8 - r.spare) := by omega
        rw [Rung.width, bits, Nat.pow_add, Nat.pow_mul]
      have low : ofBigEndian (first :: others) % r.width =
          first.toNat % 2 ^ (8 - r.spare) * 256 ^ others.length + ofBigEndian others := by
        rw [ofBigEndian_cons, width, Nat.mod_mul, Nat.mul_comm, Nat.mul_add_mod,
          Nat.mod_eq_of_lt (ofBigEndian_lt others), Nat.mul_add_div (Nat.pow_pos (by decide)),
          Nat.div_eq_of_lt (ofBigEndian_lt others), Nat.add_zero, Nat.mul_comm, Nat.add_comm,
          Nat.mul_comm]
      have top : ofBigEndian (first :: others) % r.width / 256 ^ others.length =
          first.toNat % 2 ^ (8 - r.spare) := by
        rw [low, Nat.mul_comm, Nat.mul_add_div (Nat.pow_pos (by decide)),
          Nat.div_eq_of_lt (ofBigEndian_lt others), Nat.add_zero]
      rw [count, bigEndian, top, low, bigEndian_mul_add, bigEndian_ofBigEndian, settled]

end Rung

namespace Ladder

/-- The bits of a first octet that do not belong to the number. -/
def fixedBits (l : Ladder) (first : UInt8) : UInt8 :=
  UInt8.ofNat (first.toNat / 2 ^ l.free * 2 ^ l.free)

theorem toNat_fixedBits (l : Ladder) (first : UInt8) :
    (l.fixedBits first).toNat = first.toNat / 2 ^ l.free * 2 ^ l.free := by
  rw [fixedBits, UInt8.toNat_ofNat', Nat.mod_eq_of_lt]
  exact Nat.lt_of_le_of_lt (Nat.div_mul_le_self _ _) first.toNat_lt

theorem fixedBits_or_bits {l : Ladder} (sound : l.Sound) (first : UInt8) :
    l.fixedBits first ||| UInt8.ofNat (l.bits first) = first := by
  apply UInt8.toNat_inj.1
  have free : (l.fixedBits first).toNat % 2 ^ l.free = 0 := by
    rw [toNat_fixedBits, Nat.mul_mod_left]
  rw [bits, toNat_or_ofNat sound.free_le free (Nat.mod_lt _ (Nat.two_pow_pos _)), toNat_fixedBits,
    Nat.div_add_mod']

theorem rungOfMark?_mem {l : Ladder} {first : UInt8} {r : Rung}
    (found : l.rungOfMark? first = some r) :
    r ∈ l.rungs ∧ r.mark ≤ l.bits first ∧ l.bits first < r.mark + r.span := by
  refine ⟨List.mem_of_find?_eq_some found, ?_⟩
  simpa [Rung.holdsMark] using List.find?_some found

/-- No ladder has spare bits but in front of a tail. -/
def SparesFit (l : Ladder) : Prop := ∀ r ∈ l.rungs, r.spare ≤ 8 ∧ (r.tail = 0 → r.spare = 0)

instance (l : Ladder) : Decidable l.SparesFit :=
  inferInstanceAs (Decidable (∀ r ∈ l.rungs, _))

/-- A number that was read is written as it was read, but for the spare bits. -/
theorem emit_of_read {l : Ladder} (sound : l.Sound) (spares : l.SparesFit) {limit least : Nat}
    (cover : Rung.Cover limit least l.rungs) {readTail : Nat → Parser Octets}
    (takes : Parser.TakesTail readTail) {first : UInt8} {i i' : Input} {value : Nat}
    (h : l.read readTail first i = .ok value i') :
    ∃ r tail, l.rungOfMark? first = some r ∧ tail.length = r.tail ∧ i.rest = tail ++ i'.rest ∧
      i'.offset = i.offset + tail.length ∧
      l.emit (l.fixedBits first) value = .done (first :: r.settled tail) := by
  cases found : l.rungOfMark? first with
  | none =>
      rw [read, found] at h
      cases h
  | some r =>
      rw [read, found] at h
      obtain ⟨tail, j, taken, done⟩ := bind_eq_ok h
      cases done
      obtain ⟨length, split, moved⟩ := takes _ _ _ _ taken
      refine ⟨r, tail, rfl, length, split, by rw [moved, length], ?_⟩
      obtain ⟨mem, from_mark, below⟩ := rungOfMark?_mem found
      have low : ofBigEndian tail % r.width < r.width := Nat.mod_lt _ r.width_pos
      have written : bigEndian r.tail (ofBigEndian tail % r.width) = r.settled tail :=
        r.bigEndian_tail (spares r mem) length
      generalize ofBigEndian tail % r.width = n at low written ⊢
      obtain ⟨steps, above⟩ := Nat.exists_eq_add_of_le from_mark
      have room : steps * r.width + n < r.capacity := by
        have : (steps + 1) * r.width ≤ r.span * r.width := Nat.mul_le_mul_right _ (by omega)
        rw [Nat.add_mul] at this
        rw [Rung.capacity]
        omega
      have whole : r.least + (l.bits first - r.mark) * r.width + n =
          r.least + (steps * r.width + n) := by
        rw [above, Nat.add_sub_cancel_left, Nat.add_assoc]
      have rung : l.rungOfValue? (r.least + (steps * r.width + n)) = some r :=
        Rung.find?_of_cover cover mem (Nat.le_add_right _ _) (Nat.add_lt_add_left room _)
      have mark : (steps * r.width + n) / r.width = steps := by
        rw [Nat.mul_comm, Nat.mul_add_div r.width_pos, Nat.div_eq_of_lt low, Nat.add_zero]
      have tail_eq : (steps * r.width + n) % r.width = n := by
        rw [Nat.mul_comm, Nat.mul_add_mod, Nat.mod_eq_of_lt low]
      rw [whole, emit, rung]
      dsimp only
      rw [Nat.add_sub_cancel_left, if_pos room, mark, tail_eq, written, ← above,
        fixedBits_or_bits sound]

def indexLadders : List Ladder := [indexOnSecondBit, indexOnThirdBit, indexOnFourthBit]

def lengthLadders : List Ladder := [lengthOnSecondBit, lengthOnFifthBit, lengthOnSeventhBit]

theorem sound_of_mem {l : Ladder} (h : l ∈ indexLadders ∨ l ∈ lengthLadders) : l.Sound := by
  simp only [indexLadders, lengthLadders, List.mem_cons, List.not_mem_nil, or_false] at h
  rcases h with (rfl | rfl | rfl) | (rfl | rfl | rfl)
  · exact sound_indexOnSecondBit
  · exact sound_indexOnThirdBit
  · exact sound_indexOnFourthBit
  · exact sound_lengthOnSecondBit
  · exact sound_lengthOnFifthBit
  · exact sound_lengthOnSeventhBit

theorem cover_of_mem_indexLadders {l : Ladder} (h : l ∈ indexLadders) :
    Rung.Cover indexLimit 0 l.rungs := by
  simp only [indexLadders, List.mem_cons, List.not_mem_nil, or_false] at h
  rcases h with rfl | rfl | rfl
  · exact cover_indexOnSecondBit
  · exact cover_indexOnThirdBit
  · exact cover_indexOnFourthBit

theorem cover_of_mem_lengthLadders {l : Ladder} (h : l ∈ lengthLadders) :
    Rung.Cover l.ceiling 1 l.rungs := by
  simp only [lengthLadders, List.mem_cons, List.not_mem_nil, or_false] at h
  rcases h with rfl | rfl | rfl
  · exact Representation.Form.identifying.cover_lengths
  · exact Representation.Form.nonIdentifying.cover_lengths
  · exact Representation.Form.chunk.cover_lengths

/-- An index of four octets is in twenty of the bits behind the first octet. -/
def withoutSpare : Octets → Octets
  | [first, second, third, fourth] =>
    [first, UInt8.ofNat (second.toNat % 16), third, fourth]
  | octets => octets

theorem withoutSpare_of_ne {octets : Octets} (h : octets.length ≠ 4) :
    withoutSpare octets = octets := by
  unfold withoutSpare
  split
  · exact absurd rfl h
  · rfl

/-- The rungs of index ladders with a tail of three octets are those with spare bits. -/
theorem tail_of_mem_indexLadders {l : Ladder} (h : l ∈ indexLadders) {r : Rung}
    (mem : r ∈ l.rungs) : (r.spare = 0 ∧ r.tail < 3) ∨
      (r.spare = 4 ∧ r.tail = 3 ∧ l.free < 7) := by
  revert r
  simp only [indexLadders, List.mem_cons, List.not_mem_nil, or_false] at h
  rcases h with rfl | rfl | rfl <;> decide

theorem spare_of_mem_lengthLadders {l : Ladder} (h : l ∈ lengthLadders) {r : Rung}
    (mem : r ∈ l.rungs) : r.spare = 0 := by
  revert r
  simp only [lengthLadders, List.mem_cons, List.not_mem_nil, or_false] at h
  rcases h with rfl | rfl | rfl <;> decide

/-- With the same fixed bits, numbers are equal exactly if what is written for them is. -/
theorem eq_iff_of_emit {l : Ladder} (sound : l.Sound) {first : UInt8} {value value' : Nat}
    {octets octets' : Octets} (h : l.emit (l.fixedBits first) value = .done octets)
    (h' : l.emit (l.fixedBits first) value' = .done octets') :
    value = value' ↔ octets = octets' := by
  have free : (l.fixedBits first).toNat % 2 ^ l.free = 0 := by
    rw [toNat_fixedBits, Nat.mul_mod_left]
  constructor
  · rintro rfl
    rw [h, Emission.done, Emission.done, Emission.mk.injEq] at h'
    exact h'.1
  · rintro rfl
    have emitted : (l.emit (l.fixedBits first) value).toExcept = .ok octets := by rw [h]; rfl
    have emitted' : (l.emit (l.fixedBits first) value').toExcept = .ok octets := by rw [h']; rfl
    obtain ⟨start, tail, split, -, yields⟩ :=
      yields_of_emit sound Parser.yields_octets free emitted
    obtain ⟨start', tail', split', -, yields'⟩ :=
      yields_of_emit sound Parser.yields_octets free emitted'
    rw [split, List.cons.injEq] at split'
    obtain ⟨rfl, rfl⟩ := split'
    have read := yields.ok [] 0
    rw [yields'.ok [] 0, EStateM.Result.ok.injEq] at read
    exact read.1.symm

theorem emitIndex_of_readIndex {l : Ladder} (mem : l ∈ indexLadders) {first : UInt8}
    {i i' : Input} {index : Nat} (h : l.readIndex first i = .ok index i')
    (below : index < indexLimit) :
    ∃ tail, i.rest = tail ++ i'.rest ∧ i'.offset = i.offset + tail.length ∧
      l.emitIndex (l.fixedBits first) index = .done (withoutSpare (first :: tail)) ∧
      (l = indexOnSecondBit → tail.length < 3) := by
  have spares : l.SparesFit := by
    intro r rung
    rcases tail_of_mem_indexLadders mem rung with ⟨none, -⟩ | ⟨four, three, -⟩ <;> omega
  obtain ⟨r, tail, found, length, split, moved, emitted⟩ := emit_of_read (sound_of_mem (.inl mem))
    spares (cover_of_mem_indexLadders mem) Parser.takesTail_octets h
  refine ⟨tail, split, moved, ?_, ?_⟩
  · rw [emitIndex, if_pos below, emitted]
    congr 1
    rcases tail_of_mem_indexLadders mem (rungOfMark?_mem found).1 with ⟨none, short⟩ |
      ⟨four, three, -⟩
    · rw [Rung.settled_of_spare_eq_zero none, withoutSpare_of_ne]
      rw [List.length_cons]
      omega
    · rw [three] at length
      obtain ⟨second, third, fourth, rfl⟩ := List.length_eq_three.1 length
      rw [Rung.settled, four]
      rfl
  · rintro rfl
    rcases tail_of_mem_indexLadders mem (rungOfMark?_mem found).1 with ⟨-, short⟩ | ⟨-, -, free⟩
    · rwa [length]
    · exact absurd free (by decide)

theorem emit_of_readLength {l : Ladder} (mem : l ∈ lengthLadders) {first : UInt8}
    {i i' : Input} {length : Nat} (h : l.readLength first i = .ok length i') :
    ∃ tail, i.rest = tail ++ i'.rest ∧ i'.offset = i.offset + tail.length ∧
      l.emit (l.fixedBits first) length = .done (first :: tail) := by
  have spares : l.SparesFit := by
    intro r rung
    have := spare_of_mem_lengthLadders mem rung
    omega
  obtain ⟨r, tail, found, -, split, moved, emitted⟩ := emit_of_read (sound_of_mem (.inr mem))
    spares (cover_of_mem_lengthLadders mem) Parser.takesTail_slice h
  have none := spare_of_mem_lengthLadders mem (rungOfMark?_mem found).1
  rw [Rung.settled_of_spare_eq_zero none] at emitted
  exact ⟨tail, split, moved, emitted⟩

theorem emit_of_yields_readIndex {l : Ladder} (mem : l ∈ indexLadders) {first : UInt8}
    {tail : Octets} {index : Nat} (h : Yields (l.readIndex first) tail index)
    (below : index < indexLimit) :
    l.emit (l.fixedBits first) index = .done (withoutSpare (first :: tail)) := by
  obtain ⟨taken, split, -, emitted, -⟩ := emitIndex_of_readIndex mem (h.ok [] 0) below
  rw [emitIndex, if_pos below] at emitted
  rw [emitted, List.append_cancel_right split]

theorem emit_of_yields_readLength {l : Ladder} (mem : l ∈ lengthLadders) {first : UInt8}
    {tail : Octets} {length : Nat} (h : Yields (l.readLength first) tail length) :
    l.emit (l.fixedBits first) length = .done (first :: tail) := by
  obtain ⟨taken, split, -, emitted⟩ := emit_of_readLength mem (h.ok [] 0)
  rw [emitted, List.append_cancel_right split]

/-- A number is written as it was read, but for four bits of an index of four octets, which only
two of the ladders have. So its spelling behind given bits is the only one up to these bits. -/
theorem spelling_of_read :
    (∀ l ∈ indexLadders, ∀ first i index i', l.readIndex first i = .ok index i' →
      index < indexLimit → ∃ tail, i.rest = tail ++ i'.rest ∧
        i'.offset = i.offset + tail.length ∧
        l.emitIndex (l.fixedBits first) index = .done (withoutSpare (first :: tail)) ∧
        (l = indexOnSecondBit → tail.length < 3)) ∧
    (∀ l ∈ lengthLadders, ∀ first i length i', l.readLength first i = .ok length i' →
      ∃ tail, i.rest = tail ++ i'.rest ∧ i'.offset = i.offset + tail.length ∧
        l.emit (l.fixedBits first) length = .done (first :: tail)) ∧
    (∀ l ∈ indexLadders, ∀ first tail index first' tail' index',
      Yields (l.readIndex first) tail index → Yields (l.readIndex first') tail' index' →
      index < indexLimit → index' < indexLimit → l.fixedBits first = l.fixedBits first' →
      (index = index' ↔ withoutSpare (first :: tail) = withoutSpare (first' :: tail'))) ∧
    (∀ l ∈ lengthLadders, ∀ first tail length first' tail' length',
      Yields (l.readLength first) tail length → Yields (l.readLength first') tail' length' →
      l.fixedBits first = l.fixedBits first' →
      (length = length' ↔ first :: tail = first' :: tail')) := by
  refine ⟨fun l mem first i index i' h below => emitIndex_of_readIndex mem h below,
    fun l mem first i length i' h => emit_of_readLength mem h, ?_, ?_⟩
  · intro l mem first tail index first' tail' index' read read' below below' same
    have emitted := emit_of_yields_readIndex mem read below
    have emitted' := emit_of_yields_readIndex mem read' below'
    rw [← same] at emitted'
    exact eq_iff_of_emit (sound_of_mem (.inl mem)) emitted emitted'
  · intro l mem first tail length first' tail' length' read read' same
    have emitted := emit_of_yields_readLength mem read
    have emitted' := emit_of_yields_readLength mem read'
    rw [← same] at emitted'
    exact eq_iff_of_emit (sound_of_mem (.inr mem)) emitted emitted'

/-- Of the bits in the second octet only the lower four are in the index. -/
theorem spelling_of_read_spare :
    indexOnThirdBit.readIndex 0x70 ⟨[0xA7, 0x00, 0x01, 0x05], 0⟩ = .ok 985121 ⟨[0x05], 3⟩ ∧
      985121 < indexLimit ∧
      indexOnThirdBit.emitIndex 0x40 985121 = .done [0x70, 0x07, 0x00, 0x01] := by
  have read : indexOnThirdBit.readIndex 0x70 ⟨[0xA7, 0x00, 0x01, 0x05], 0⟩ =
      .ok 985121 ⟨[0x05], 3⟩ := rfl
  have below : 985121 < indexLimit := by decide
  obtain ⟨tail, split, -, emitted, -⟩ :=
    spelling_of_read.1 indexOnThirdBit (by simp [indexLadders]) 0x70 _ _ _ read below
  have taken : [0xA7, 0x00, 0x01] = tail := List.append_cancel_right split
  subst taken
  exact ⟨read, below, emitted⟩

/-- Two octet strings with the same fixed bits are read as one index, and it is written as the
second of them. -/
theorem not_written_as_read :
    indexOnThirdBit.readIndex 0x30 ⟨[0x10, 0x00, 0x00], 0⟩ = .ok 526368 ⟨[], 3⟩ ∧
      indexOnThirdBit.readIndex 0x30 ⟨[0x00, 0x00, 0x00], 0⟩ = .ok 526368 ⟨[], 3⟩ ∧
      526368 < indexLimit ∧
      indexOnThirdBit.emitIndex (indexOnThirdBit.fixedBits 0x30) 526368 =
        .done [0x30, 0x00, 0x00, 0x00] ∧
      indexOnThirdBit.emitIndex (indexOnThirdBit.fixedBits 0x30) 526368 ≠
        .done [0x30, 0x10, 0x00, 0x00] := by
  have written : indexOnThirdBit.emitIndex (indexOnThirdBit.fixedBits 0x30) 526368 =
      .done [0x30, 0x00, 0x00, 0x00] := rfl
  refine ⟨rfl, rfl, by decide, written, ?_⟩
  rw [written, Emission.done, Emission.done, ne_eq, Emission.mk.injEq]
  decide

end Ladder

end BinaryXml
