import BinaryXml.NameRepresentation
import BinaryXml.Proofs.EncodingRoundTrip

/-!
# Emissions that succeed

The rungs of a ladder leave no gap, so every index below the limit is written, and so is every
string that has any octets and not too many. A form then writes the representations that it has
room for, and no others.
-/

namespace BinaryXml

/-! ## Sizes of text -/

/-- What has no more octets than this is short enough to be written anywhere. -/
def stringLimit : Nat := 0x40000000

def IsShort (text : String) : Prop := text.utf8ByteSize ≤ stringLimit

instance (text : String) : Decidable (IsShort text) :=
  inferInstanceAs (Decidable (_ ≤ _))

theorem Utf8.length_encodeChar (c : Char) : (Utf8.encodeChar c).length = c.utf8Size := by
  unfold encodeChar Char.utf8Size
  simp only [UInt32.le_iff_toNat_le, UInt32.toNat_ofNatLT, Char.toNat]
  by_cases one : c.val.toNat ≤ 127
  · rw [if_pos (by omega), if_pos one]
    rfl
  by_cases two : c.val.toNat ≤ 2047
  · rw [if_neg (by omega), if_pos (by omega), if_neg one, if_pos two]
    rfl
  by_cases three : c.val.toNat ≤ 65535
  · rw [if_neg (by omega), if_neg (by omega), if_pos (by omega), if_neg one, if_neg two,
      if_pos three]
    rfl
  · rw [if_neg (by omega), if_neg (by omega), if_neg (by omega), if_neg one, if_neg two,
      if_neg three]
    rfl

theorem Utf8.length_encode (text : String) : (Utf8.encode text).length = text.utf8ByteSize := by
  have each (cs : List Char) :
      (cs.flatMap encodeChar).length = (String.ofList cs).utf8ByteSize := by
    induction cs with
    | nil => rfl
    | cons c cs ih =>
        rw [List.flatMap_cons, List.length_append, ih, length_encodeChar, String.ofList_cons,
          String.utf8ByteSize_append, String.utf8ByteSize_singleton]
  rw [encode, each, String.ofList_toList]

/-- UTF-16 takes at most twice the octets of UTF-8. -/
theorem Utf16.length_encode_le (text : String) :
    (Utf16.encode text).length ≤ 2 * (Utf8.encode text).length := by
  have char (c : Char) : ((units c).flatMap (bigEndian 2)).length ≤
      2 * (Utf8.encodeChar c).length := by
    unfold units Utf8.encodeChar
    by_cases basic : c.toNat < 0x10000
    · simp only [if_pos basic, List.flatMap_singleton, length_bigEndian]
      split
      · simp
      · split <;> simp
    · have above : ¬c.toNat < 0x80 ∧ ¬c.toNat < 0x800 := by omega
      simp [basic, above, length_bigEndian]
  unfold encode Utf8.encode
  induction text.toList with
  | nil => exact Nat.le_refl _
  | cons c cs ih =>
      have first := char c
      simp only [List.flatMap_cons, List.flatMap_append, List.length_append] at ih ⊢
      omega

namespace Emission

/-- The emission is not cut short. -/
def Succeeds (e : Emission) : Prop := e.failure? = none

variable {first second : Emission}

@[simp] theorem succeeds_done (octets : Octets) : (done octets).Succeeds := rfl

theorem Succeeds.toExcept_eq_ok (h : first.Succeeds) : first.toExcept = .ok first.octets := by
  rw [toExcept, h]

/-- Of two emissions the first cause counts. -/
theorem failure?_append (first second : Emission) :
    (first ++ second).failure? = first.failure?.or second.failure? := by
  obtain ⟨octets, _ | cause⟩ := first <;> rfl

theorem succeeds_append : (first ++ second).Succeeds ↔ first.Succeeds ∧ second.Succeeds := by
  rw [Succeeds, failure?_append, Option.or_eq_none_iff]
  exact Iff.rfl

theorem Succeeds.append (front : first.Succeeds) (back : second.Succeeds) :
    (first ++ second).Succeeds :=
  succeeds_append.2 ⟨front, back⟩

theorem succeeds_iff : first.Succeeds ↔ ∃ octets, first.toExcept = .ok octets := by
  refine ⟨fun h => ⟨_, h.toExcept_eq_ok⟩, ?_⟩
  rintro ⟨octets, emitted⟩
  obtain ⟨_, _ | cause⟩ := first
  · rfl
  · cases emitted

end Emission

/-! ## Ladders without gaps -/

/-- The rungs hold all numbers from `least` on that are below the limit. -/
def Rung.Cover (limit : Nat) : Nat → List Rung → Prop
  | least, [] => limit ≤ least
  | least, r :: rungs => r.least = least ∧ Cover limit (least + r.capacity) rungs

namespace Rung

variable {limit least value : Nat} {rungs : List Rung}

theorem least_le_of_cover (h : Cover limit least rungs) : ∀ r ∈ rungs, least ≤ r.least := by
  induction rungs generalizing least with
  | nil => exact nofun
  | cons r rungs ih =>
      obtain ⟨rfl, rest⟩ := h
      intro s mem
      rcases List.mem_cons.1 mem with rfl | later
      · exact Nat.le_refl _
      · exact Nat.le_trans (Nat.le_add_right _ _) (ih rest s later)

/-- The last rung that begins below a number has room for it. -/
theorem exists_of_cover (h : Cover limit least rungs) (from_least : least ≤ value)
    (below : value < limit) :
    ∃ r, rungs.reverse.find? (·.least ≤ value) = some r ∧ value - r.least < r.capacity := by
  induction rungs generalizing least with
  | nil => exact absurd (Nat.lt_of_lt_of_le below h) (Nat.not_lt.2 from_least)
  | cons r rungs ih =>
      obtain ⟨rfl, rest⟩ := h
      rw [List.reverse_cons, List.find?_append]
      by_cases beyond : r.least + r.capacity ≤ value
      · obtain ⟨s, found, room⟩ := ih rest beyond
        exact ⟨s, by rw [found, Option.some_or], room⟩
      · have none : rungs.reverse.find? (·.least ≤ value) = none := by
          apply List.find?_eq_none.2
          intro s mem begun
          have := least_le_of_cover rest s (List.mem_reverse.1 mem)
          simp only [decide_eq_true_eq] at begun
          omega
        refine ⟨r, ?_, by omega⟩
        rw [none, Option.none_or, List.find?_singleton]
        simp [from_least]

end Rung

namespace Ladder

variable {l : Ladder} {limit least value : Nat}

theorem succeeds_emit (cover : Rung.Cover limit least l.rungs) (from_least : least ≤ value)
    (below : value < limit) (fixed : UInt8) : (l.emit fixed value).Succeeds := by
  obtain ⟨r, found, room⟩ := Rung.exists_of_cover cover from_least below
  rw [emit, rungOfValue?, found]
  dsimp only
  rw [if_pos room]
  exact Emission.succeeds_done _

/-- The first number that lies beyond all rungs. -/
def ceiling (l : Ladder) : Nat := (l.rungs.map fun r => r.least + r.capacity).foldr max 0

theorem le_ceiling {r : Rung} (h : r ∈ l.rungs) : r.least + r.capacity ≤ l.ceiling := by
  unfold ceiling
  generalize l.rungs = rungs at h
  induction rungs with
  | nil => cases h
  | cons s rungs ih =>
      rw [List.map_cons, List.foldr_cons]
      rcases List.mem_cons.1 h with rfl | later
      · exact Nat.le_max_left _ _
      · exact Nat.le_trans (ih later) (Nat.le_max_right _ _)

/-- A ladder without gaps writes the numbers from its first rung to its last one, and no others. -/
theorem succeeds_emit_iff (cover : Rung.Cover l.ceiling least l.rungs) (fixed : UInt8) :
    (l.emit fixed value).Succeeds ↔ least ≤ value ∧ value < l.ceiling := by
  refine ⟨fun h => ?_, fun h => succeeds_emit cover h.1 h.2 fixed⟩
  unfold emit at h
  split at h
  · cases h
  · next r found =>
      have member : r ∈ l.rungs := List.mem_reverse.1 (List.mem_of_find?_eq_some found)
      have begun : r.least ≤ value := by simpa using List.find?_some found
      have lower := Rung.least_le_of_cover cover r member
      have upper := l.le_ceiling member
      dsimp only at h
      split at h
      · omega
      · cases h

/-- Every index that a table may give can be written. -/
theorem succeeds_emitIndex (cover : Rung.Cover indexLimit 0 l.rungs) (below : value < indexLimit)
    (fixed : UInt8) : (l.emitIndex fixed value).Succeeds := by
  rw [emitIndex, if_pos below]
  exact succeeds_emit cover (Nat.zero_le _) below fixed

theorem succeeds_emitIndex_iff (cover : Rung.Cover indexLimit 0 l.rungs) (fixed : UInt8) :
    (l.emitIndex fixed value).Succeeds ↔ value < indexLimit := by
  refine ⟨fun h => ?_, fun below => succeeds_emitIndex cover below fixed⟩
  unfold emitIndex at h
  split at h
  · next below => exact below
  · cases h

/-- Lengths of fewer octets than this fit every ladder. -/
def lengthLimit : Nat := 0x100000000

theorem succeeds_emitString_iff (cover : Rung.Cover l.ceiling 1 l.rungs) {octets : Octets}
    (fixed : UInt8) :
    (l.emitString fixed octets).Succeeds ↔ octets ≠ [] ∧ octets.length < l.ceiling := by
  rw [emitString, Emission.succeeds_append, succeeds_emit_iff cover, Nat.succ_le_iff,
    List.length_pos_iff]
  simp

theorem cover_indexOnSecondBit : Rung.Cover indexLimit 0 indexOnSecondBit.rungs := by
  simp [Rung.Cover, indexOnSecondBit, Rung.capacity, Rung.width, indexLimit]

theorem cover_indexOnThirdBit : Rung.Cover indexLimit 0 indexOnThirdBit.rungs := by
  simp [Rung.Cover, indexOnThirdBit, Rung.capacity, Rung.width, indexLimit]

theorem cover_indexOnFourthBit : Rung.Cover indexLimit 0 indexOnFourthBit.rungs := by
  simp [Rung.Cover, indexOnFourthBit, Rung.capacity, Rung.width, indexLimit]

end Ladder

/-! ## Representations -/

namespace CharacterEncoding

variable {text : String}

theorem encode_eq_nil_iff (encoding : CharacterEncoding) :
    encoding.encode text = [] ↔ text = "" := by
  constructor
  · intro none
    have read := decode_encode encoding text
    rw [none] at read
    cases encoding <;> injection read with same <;> exact same.symm
  · rintro rfl
    cases encoding <;> rfl

theorem encode_ne_nil (encoding : CharacterEncoding) (filled : text ≠ "") :
    encoding.encode text ≠ [] :=
  mt encoding.encode_eq_nil_iff.1 filled

theorem length_encode_lt (encoding : CharacterEncoding) (short : IsShort text) :
    (encoding.encode text).length < Ladder.lengthLimit := by
  have utf8 := Utf8.length_encode text
  have utf16 := Utf16.length_encode_le text
  unfold IsShort stringLimit at short
  unfold Ladder.lengthLimit
  cases encoding with
  | utf8 =>
      change (Utf8.encode text).length < _
      omega
  | utf16 =>
      change (Utf16.encode text).length < _
      omega

end CharacterEncoding

/-- Octets that an algorithm or alphabet may have packed. -/
structure IsPacked (octets : Octets) : Prop where
  filled : octets ≠ []
  short : octets.length ≤ stringLimit

theorem IsPacked.length_lt {octets : Octets} (h : IsPacked octets) :
    octets.length < Ladder.lengthLimit :=
  Nat.lt_of_le_of_lt h.short (by decide)

namespace Representation

/-- The ways to write a string: as one that names something, as any other, or as content. -/
inductive Form
  | identifying
  | nonIdentifying
  | chunk
  deriving DecidableEq

namespace Form

def emit (form : Form) (encoding : CharacterEncoding) : Representation → Emission :=
  match form with
  | identifying => emitIdentifying
  | nonIdentifying => emitNonIdentifying encoding
  | chunk => emitChunk encoding

/-- What names something is never in UTF-16. -/
def encodingOf (form : Form) (encoding : CharacterEncoding) : CharacterEncoding :=
  match form with
  | identifying => .utf8
  | nonIdentifying => encoding
  | chunk => encoding

/-- The ladder for the lengths of strings in the form. -/
def lengths : Form → Ladder
  | identifying => lengthOnSecondBit
  | nonIdentifying => lengthOnFifthBit
  | chunk => lengthOnSeventhBit

theorem cover_lengths (form : Form) :
    Rung.Cover form.lengths.ceiling 1 form.lengths.rungs := by
  cases form <;>
    simp [lengths, lengthOnSecondBit, lengthOnFifthBit, lengthOnSeventhBit, Ladder.ceiling,
      Rung.Cover, Rung.capacity, Rung.width]

theorem lengthLimit_le_ceiling (form : Form) : Ladder.lengthLimit ≤ form.lengths.ceiling := by
  cases form <;> decide

/-- The form has room for the representation. Only strings that are neither names nor content may
be empty, and only names cannot be packed. -/
def Admits (form : Form) (encoding : CharacterEncoding) : Representation → Prop
  | literal value _ =>
    (value = "" → form = nonIdentifying) ∧
      ((form.encodingOf encoding).encode value).length < form.lengths.ceiling
  | indexed index => index < indexLimit
  | packed _ _ octets _ =>
    form ≠ identifying ∧ octets ≠ [] ∧ octets.length < form.lengths.ceiling

variable {form : Form} {encoding : CharacterEncoding} {r : Representation}

theorem succeeds_emitString_iff (form : Form) {octets : Octets} (fixed : UInt8) :
    (form.lengths.emitString fixed octets).Succeeds ↔
      octets ≠ [] ∧ octets.length < form.lengths.ceiling :=
  Ladder.succeeds_emitString_iff form.cover_lengths fixed

theorem succeeds_emitString (form : Form) {octets : Octets} (filled : octets ≠ [])
    (short : octets.length < Ladder.lengthLimit) (fixed : UInt8) :
    (form.lengths.emitString fixed octets).Succeeds :=
  (succeeds_emitString_iff form fixed).2
    ⟨filled, Nat.lt_of_lt_of_le short form.lengthLimit_le_ceiling⟩

theorem succeeds_emit_literal_iff {value : String} {add : Bool} (filled : value ≠ "") :
    (form.emit encoding (literal value add)).Succeeds ↔
      ((form.encodingOf encoding).encode value).length < form.lengths.ceiling := by
  have some (encoding : CharacterEncoding) := encoding.encode_ne_nil filled
  have kept : ¬value.isEmpty = true := mt String.isEmpty_iff.1 filled
  cases form with
  | identifying =>
      exact (succeeds_emitString_iff identifying _).trans (and_iff_right (some .utf8))
  | nonIdentifying =>
      rw [emit, emitNonIdentifying, if_neg kept]
      exact (succeeds_emitString_iff nonIdentifying _).trans (and_iff_right (some encoding))
  | chunk =>
      rw [emit, emitChunk, if_neg kept]
      exact (succeeds_emitString_iff chunk _).trans (and_iff_right (some encoding))

theorem succeeds_emit_empty_iff {add : Bool} :
    (form.emit encoding (literal "" add)).Succeeds ↔ form = nonIdentifying := by
  cases form with
  | identifying =>
      refine ⟨fun h => ?_, nofun⟩
      exact absurd rfl ((succeeds_emitString_iff identifying _).1 h).1
  | nonIdentifying => exact iff_of_true rfl rfl
  | chunk => exact ⟨nofun, nofun⟩

theorem succeeds_emit_packed_iff {packing : Packing} {id : UInt8} {octets : Octets} {add : Bool} :
    (form.emit encoding (packed packing id octets add)).Succeeds ↔
      form ≠ identifying ∧ octets ≠ [] ∧ octets.length < form.lengths.ceiling := by
  by_cases none : octets = []
  · subst none
    refine iff_of_false ?_ fun h => h.2.1 rfl
    cases form <;> exact nofun
  have filled : ¬octets.isEmpty = true := mt List.isEmpty_iff.1 none
  cases form with
  | identifying => exact iff_of_false nofun fun h => h.1 rfl
  | nonIdentifying =>
      rw [emit, emitNonIdentifying, if_neg filled, Emission.succeeds_append,
        and_iff_right (Emission.succeeds_done _), and_iff_right nofun]
      exact succeeds_emitString_iff nonIdentifying _
  | chunk =>
      rw [emit, emitChunk, if_neg filled, Emission.succeeds_append,
        and_iff_right (Emission.succeeds_done _), and_iff_right nofun]
      exact succeeds_emitString_iff chunk _

/-- A form writes exactly what it admits. -/
theorem succeeds_emit_iff : (form.emit encoding r).Succeeds ↔ form.Admits encoding r := by
  cases r with
  | literal value add =>
      by_cases none : value = ""
      · subst none
        refine succeeds_emit_empty_iff.trans ⟨fun h => ⟨fun _ => h, ?_⟩, fun h => h.1 rfl⟩
        rw [(CharacterEncoding.encode_eq_nil_iff _).2 rfl]
        exact Nat.lt_of_lt_of_le (by decide) form.lengthLimit_le_ceiling
      · rw [succeeds_emit_literal_iff none, Admits, and_iff_right (absurd · none)]
  | indexed index =>
      cases form with
      | identifying => exact Ladder.succeeds_emitIndex_iff Ladder.cover_indexOnSecondBit _
      | nonIdentifying => exact Ladder.succeeds_emitIndex_iff Ladder.cover_indexOnSecondBit _
      | chunk => exact Ladder.succeeds_emitIndex_iff Ladder.cover_indexOnFourthBit _
  | packed packing id octets add => exact succeeds_emit_packed_iff

end Form

/-- What the representation gives is within the limits. -/
def IsWritable : Representation → Prop
  | literal value _ => IsShort value
  | indexed index => index < indexLimit
  | packed _ _ octets _ => IsPacked octets

variable {r : Representation}

theorem Form.admits_of_isWritable (form : Form) (encoding : CharacterEncoding)
    (h : r.IsWritable) (packs : ∀ packing id octets add, r = packed packing id octets add →
      form ≠ identifying)
    (filled : ∀ add, r = literal "" add → form = nonIdentifying) : form.Admits encoding r := by
  have room {length : Nat} (short : length < Ladder.lengthLimit) : length < form.lengths.ceiling :=
    Nat.lt_of_lt_of_le short form.lengthLimit_le_ceiling
  cases r with
  | literal value add =>
      exact ⟨fun none => filled add (none ▸ rfl), room (CharacterEncoding.length_encode_lt _ h)⟩
  | indexed index => exact h
  | packed packing id octets add =>
      exact ⟨packs packing id octets add rfl, IsPacked.filled h, room (IsPacked.length_lt h)⟩

theorem succeeds_emitNonIdentifying (encoding : CharacterEncoding) (h : r.IsWritable) :
    (r.emitNonIdentifying encoding).Succeeds :=
  Form.succeeds_emit_iff.2 <|
    Form.admits_of_isWritable .nonIdentifying encoding h nofun fun _ _ => rfl

theorem succeeds_emitChunk (encoding : CharacterEncoding) (h : r.IsWritable)
    (filled : ∀ value add, r = literal value add → value ≠ "") :
    (r.emitChunk encoding).Succeeds :=
  Form.succeeds_emit_iff.2 <|
    Form.admits_of_isWritable .chunk encoding h nofun fun add same =>
      absurd rfl (filled "" add same)

end Representation

namespace NameRepresentation

variable {nsPrefix namespaceName localName : Option Representation}

theorem succeeds_emitPart_iff {part? : Option Representation} :
    (emitPart part?).Succeeds ↔ ∀ part ∈ part?, part.emitIdentifying.Succeeds := by
  cases part? with
  | none => exact iff_of_true (Emission.succeeds_done _) nofun
  | some part => exact ⟨fun h => by rintro _ ⟨⟩; exact h, fun h => h part rfl⟩

/-- A prefix without a namespace name is not written, and neither is what no form admits. -/
theorem succeeds_emitParts_iff (fixed : UInt8) :
    (emitParts fixed nsPrefix namespaceName localName).Succeeds ↔
      (nsPrefix.isSome = true → namespaceName.isSome = true) ∧
        (∀ part ∈ nsPrefix, part.emitIdentifying.Succeeds) ∧
        (∀ part ∈ namespaceName, part.emitIdentifying.Succeeds) ∧
        ∀ part ∈ localName, part.emitIdentifying.Succeeds := by
  by_cases alone : (nsPrefix.isSome && namespaceName.isNone) = true
  · rw [emitParts, if_pos alone]
    refine iff_of_false nofun fun h => ?_
    obtain ⟨some, none⟩ := Bool.and_eq_true_iff.1 alone
    rw [← Option.not_isSome, h.1 some] at none
    cases none
  · have together : nsPrefix.isSome = true → namespaceName.isSome = true := by
      intro some
      rw [some, Bool.true_and, Option.isNone_iff_eq_none, ← ne_eq,
        ← Option.isSome_iff_ne_none] at alone
      exact alone
    rw [emitParts, if_neg alone, and_iff_right together, Emission.succeeds_append,
      Emission.succeeds_append, Emission.succeeds_append, succeeds_emitPart_iff,
      succeeds_emitPart_iff, succeeds_emitPart_iff, and_iff_right (Emission.succeeds_done _),
      and_assoc]

end NameRepresentation

end BinaryXml
