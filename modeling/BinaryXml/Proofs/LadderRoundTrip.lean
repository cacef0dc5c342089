import BinaryXml.Proofs.Readers

/-!
# Reading back graduated numbers

The rungs of a sound ladder have leading values that fit the free bits and ascend, so the rung on
which a number was written is the only one whose leading values hold its first octet. Whatever a
ladder writes is then read back as the same number, and the fixed bits of the first octet stay.
-/

namespace BinaryXml

-- Powers are those of `Nat` alone, whatever algebra is in scope.
attribute [local instance (high)] instPowNat

namespace Ladder

structure Sound (l : Ladder) : Prop where
  free_le : l.free ≤ 8
  marks_lt : ∀ r ∈ l.rungs, r.mark + r.span ≤ 2 ^ l.free
  ascending : l.rungs.Pairwise fun r s => r.mark + r.span ≤ s.mark

theorem sound_indexOnSecondBit : indexOnSecondBit.Sound := ⟨by decide, by decide, by decide⟩

theorem sound_indexOnThirdBit : indexOnThirdBit.Sound := ⟨by decide, by decide, by decide⟩

theorem sound_indexOnFourthBit : indexOnFourthBit.Sound := ⟨by decide, by decide, by decide⟩

theorem sound_lengthOnSecondBit : lengthOnSecondBit.Sound := ⟨by decide, by decide, by decide⟩

theorem sound_lengthOnFifthBit : lengthOnFifthBit.Sound := ⟨by decide, by decide, by decide⟩

theorem sound_lengthOnSeventhBit : lengthOnSeventhBit.Sound := ⟨by decide, by decide, by decide⟩

end Ladder

theorem Rung.width_pos (r : Rung) : 0 < r.width := Nat.two_pow_pos _

theorem Rung.width_le (r : Rung) : r.width ≤ 256 ^ r.tail := by
  have : (256 : Nat) ^ r.tail = 2 ^ (8 * r.tail) := by rw [Nat.pow_mul]
  rw [this]
  exact Nat.pow_le_pow_right (by omega) (by omega)

/-- Bits that do not overlap are joined by addition. -/
theorem toNat_or_ofNat {fixed : UInt8} {free n : Nat} (hfree : free ≤ 8)
    (hfixed : fixed.toNat % 2 ^ free = 0) (hn : n < 2 ^ free) :
    (fixed ||| UInt8.ofNat n).toNat = fixed.toNat + n := by
  have bound : 2 ^ free ≤ 2 ^ 8 := Nat.pow_le_pow_right (by omega) hfree
  have whole : fixed.toNat = 2 ^ free * (fixed.toNat / 2 ^ free) :=
    (Nat.mul_div_cancel' (Nat.dvd_of_mod_eq_zero hfixed)).symm
  have narrow : (UInt8.ofNat n).toNat = n := by
    rw [UInt8.toNat_ofNat', Nat.mod_eq_of_lt (by omega)]
  rw [UInt8.toNat_or, narrow, whole, ← Nat.two_pow_add_eq_or_of_lt hn]

theorem or_ofNat_mod {fixed : UInt8} {free n : Nat} (hfree : free ≤ 8)
    (hfixed : fixed.toNat % 2 ^ free = 0) (hn : n < 2 ^ free) :
    (fixed ||| UInt8.ofNat n).toNat % 2 ^ free = n := by
  rw [toNat_or_ofNat hfree hfixed hn, Nat.add_mod, hfixed, Nat.zero_add, Nat.mod_mod,
    Nat.mod_eq_of_lt hn]

theorem or_ofNat_div {fixed : UInt8} {free n : Nat} (hfree : free ≤ 8)
    (hfixed : fixed.toNat % 2 ^ free = 0) (hn : n < 2 ^ free) :
    (fixed ||| UInt8.ofNat n).toNat / 2 ^ free = fixed.toNat / 2 ^ free := by
  obtain ⟨q, hq⟩ := Nat.dvd_of_mod_eq_zero hfixed
  rw [toNat_or_ofNat hfree hfixed hn, hq, Nat.mul_add_div (Nat.two_pow_pos free),
    Nat.div_eq_of_lt hn, Nat.add_zero, Nat.mul_div_cancel_left q (Nat.two_pow_pos free)]

namespace Ladder

theorem rungOfMark?_eq_some {l : Ladder} (sound : l.Sound) {first : UInt8} {r : Rung}
    (hr : r ∈ l.rungs) (hm : r.holdsMark (l.bits first) = true) :
    l.rungOfMark? first = some r := by
  obtain ⟨before, after, split⟩ := List.append_of_mem hr
  have ascending := sound.ascending
  rw [split, List.pairwise_append] at ascending
  rw [rungOfMark?, split, List.find?_append]
  have none_before : before.find? (·.holdsMark (l.bits first)) = none := by
    rw [List.find?_eq_none]
    intro s hs held
    have := ascending.2.2 s hs r List.mem_cons_self
    simp only [Rung.holdsMark, Bool.and_eq_true, decide_eq_true_eq] at held hm
    omega
  simp [none_before, hm]

/-- The first octet keeps its fixed bits, and its free bits are a leading value of some rung. -/
structure Opens (l : Ladder) (fixed first : UInt8) : Prop where
  fixed_eq : first.toNat / 2 ^ l.free = fixed.toNat / 2 ^ l.free
  held : ∃ r ∈ l.rungs, r.holdsMark (first.toNat % 2 ^ l.free) = true

theorem Opens.free_lt {l : Ladder} {fixed first : UInt8} (h : l.Opens fixed first) (top : Nat)
    (htop : ∀ r ∈ l.rungs, r.mark + r.span ≤ top) : first.toNat % 2 ^ l.free < top := by
  obtain ⟨r, member, held⟩ := h.held
  have := htop r member
  simp only [Rung.holdsMark, Bool.and_eq_true, decide_eq_true_eq] at held
  omega

theorem yields_of_emit {l : Ladder} (sound : l.Sound) {readTail : Nat → Parser Octets}
    (tails : ∀ os, Yields (readTail os.length) os os) {fixed : UInt8}
    (hfixed : fixed.toNat % 2 ^ l.free = 0) {value : Nat} {octets : Octets}
    (h : (l.emit fixed value).toExcept = .ok octets) :
    ∃ first tail, octets = first :: tail ∧ l.Opens fixed first ∧
      Yields (l.read readTail first) tail value := by
  unfold emit at h
  split at h
  · cases h
  · next r hr =>
      have member : r ∈ l.rungs := List.mem_reverse.1 (List.mem_of_find?_eq_some hr)
      have least : r.least ≤ value := by simpa using List.find?_some hr
      dsimp only at h
      split at h
      · next fits =>
          cases h
          have mark_lt : (value - r.least) / r.width < r.span := by
            rw [Nat.div_lt_iff_lt_mul r.width_pos]
            exact fits
          have top := sound.marks_lt r member
          have small : r.mark + (value - r.least) / r.width < 2 ^ l.free := by omega
          have bits := or_ofNat_mod sound.free_le hfixed small
          have kept := or_ofNat_div sound.free_le hfixed small
          generalize fixed ||| UInt8.ofNat (r.mark + (value - r.least) / r.width) = first at *
          have held : r.holdsMark (first.toNat % 2 ^ l.free) = true := by
            rw [bits]
            simp [Rung.holdsMark, mark_lt]
          refine ⟨first, _, rfl, ⟨kept, r, member, held⟩, ?_⟩
          rw [read, rungOfMark?_eq_some sound member held]
          have tail := tails (bigEndian r.tail ((value - r.least) % r.width))
          rw [length_bigEndian] at tail
          have total : r.least + (l.bits first - r.mark) * r.width +
              ofBigEndian (bigEndian r.tail ((value - r.least) % r.width)) % r.width = value := by
            have whole := Nat.div_add_mod (value - r.least) r.width
            have narrow : (value - r.least) % r.width < 256 ^ r.tail :=
              Nat.lt_of_lt_of_le (Nat.mod_lt _ r.width_pos) r.width_le
            rw [Ladder.bits, bits, ofBigEndian_bigEndian, Nat.add_sub_cancel_left,
              Nat.mod_eq_of_lt narrow, Nat.mod_mod, Nat.mul_comm]
            omega
          have back := tail.bind (f := fun tail => (pure (r.least +
            (l.bits first - r.mark) * r.width + ofBigEndian tail % r.width) : Parser Nat))
          rw [total] at back
          exact back
      · cases h

theorem yields_of_emitIndex {l : Ladder} (sound : l.Sound) {fixed : UInt8}
    (hfixed : fixed.toNat % 2 ^ l.free = 0) {index : Nat} {octets : Octets}
    (h : (l.emitIndex fixed index).toExcept = .ok octets) :
    ∃ first tail, octets = first :: tail ∧ l.Opens fixed first ∧
      Yields (l.readIndex first) tail index := by
  unfold emitIndex at h
  split at h
  · exact yields_of_emit sound Parser.yields_octets hfixed h
  · cases h

theorem yields_of_emitString {l : Ladder} (sound : l.Sound) {fixed : UInt8}
    (hfixed : fixed.toNat % 2 ^ l.free = 0) {value octets : Octets}
    (h : (l.emitString fixed value).toExcept = .ok octets) :
    ∃ first tail, octets = first :: tail ∧ l.Opens fixed first ∧
      Yields (l.readString first) tail value := by
  obtain ⟨front, back, hfront, hback, rfl⟩ := Emission.toExcept_append_eq_ok.1 h
  cases hback
  obtain ⟨first, tail, rfl, opens, yields⟩ := yields_of_emit sound Parser.yields_slice hfixed hfront
  exact ⟨first, tail ++ value, rfl, opens, yields.bind.yields (Parser.yields_slice value)⟩

end Ladder

end BinaryXml
