import BinaryXml.Proofs.EmissionSuccess
import BinaryXml.Proofs.NameRoundTrip
import BinaryXml.Proofs.ProperNames

/-!
# Written names

Names and declarations share their first octet with the marks that may stand in their place and, in
an element, with the two bits in front. Whichever parts a name has and whichever index it is, its
first octet tells it from all of these, and the name is read back from in front of any other octets.
A prefix without a namespace name is neither written nor read.
-/

namespace BinaryXml

/-- The octet ends a list, or two things at once. -/
def Mark.Ends (octet : UInt8) : Prop := octet = terminator ∨ octet = doubleTerminator

theorem Mark.not_ends_of_lt {octet : UInt8} (h : octet.toNat < 0xF0) : ¬Ends octet := by
  rintro (rfl | rfl) <;> exact absurd h (by decide)

/-- A way to write names, or what is like them, behind an octet that is read before them. -/
structure NameLayout (α : Type) where
  emit : α → Emission
  /-- Reads what the octet begins. -/
  read : UInt8 → Parser α
  /-- What a reader is given, whose literals always ask to be entered. -/
  received : α → α
  /-- There is room for the value. -/
  Admits : α → Prop
  /-- A prefix comes with a namespace name. -/
  IsWhole : α → Prop
  /-- The octets that a written value may begin with. -/
  Opens : UInt8 → Prop
  /-- The octets that announce the parts of a value in their last two bits. -/
  Announces : UInt8 → Prop

namespace NameLayout

variable {α : Type}

/-- What there is room for is written, and what is written is read back. A prefix alone is refused
in both directions. -/
structure Faithful (l : NameLayout α) : Prop where
  exists_emit_iff : ∀ a, (∃ octets, (l.emit a).toExcept = .ok octets) ↔ l.Admits a
  reads_back : ∀ a octets, (l.emit a).toExcept = .ok octets →
    ∃ first tail, octets = first :: tail ∧ l.Opens first ∧ ∀ following offset,
      l.read first ⟨tail ++ following, offset⟩ =
        .ok (l.received a) ⟨following, offset + tail.length⟩
  emit_partial : ∀ a, ¬l.IsWhole a → l.emit a = .failed .prefixWithoutNamespace
  read_partial : ∀ first, l.Announces first → first.toNat % 4 = 2 → ∀ input,
    l.read first input = .error .prefixWithoutNamespace input
  read_whole : ∀ first, Ensures (l.read first) l.IsWhole

end NameLayout

namespace NameRepresentation

/-- A part is written as what identifies something. -/
def AdmitsPart (part? : Option Representation) : Prop :=
  ∀ part ∈ part?, Representation.Form.identifying.Admits .utf8 part

def Admits : NameRepresentation → Prop
  | indexed index => index < indexLimit
  | parts nsPrefix namespaceName localName =>
    (nsPrefix.isSome = true → namespaceName.isSome = true) ∧ AdmitsPart nsPrefix ∧
      AdmitsPart namespaceName ∧ AdmitsPart (some localName)

def IsWhole : NameRepresentation → Prop
  | indexed _ => True
  | parts nsPrefix namespaceName _ => nsPrefix.isSome = true → namespaceName.isSome = true

/-- The name of an element stands behind two bits, with which `fixed` begins. -/
def elementLayout (fixed : UInt8) : NameLayout NameRepresentation where
  emit := emitElement fixed
  read := readElement
  received := asIdentifying
  Admits := Admits
  IsWhole := IsWhole
  Opens first :=
    first.toNat / 64 = fixed.toNat / 64 ∧ first.toNat % 64 ≠ Mark.declarations.toNat
  Announces first := first.toNat / 4 % 16 = 15

def attributeLayout : NameLayout NameRepresentation where
  emit := emitAttribute
  read := readAttribute
  received := asIdentifying
  Admits := Admits
  IsWhole := IsWhole
  Opens first := first.toNat < 0x80 ∧ ¬Mark.Ends first
  Announces first := first.toNat / 4 = 0x78 / 4

variable {nsPrefix namespaceName localName : Option Representation} {n : NameRepresentation}

theorem exists_emitParts_iff {fixed : UInt8} :
    (∃ octets, (emitParts fixed nsPrefix namespaceName localName).toExcept = .ok octets) ↔
      (nsPrefix.isSome = true → namespaceName.isSome = true) ∧ AdmitsPart nsPrefix ∧
        AdmitsPart namespaceName ∧ AdmitsPart localName := by
  have identifies (r : Representation) :
      r.emitIdentifying.Succeeds ↔ Representation.Form.identifying.Admits .utf8 r := by
    rw [← Representation.Form.succeeds_emit_iff]
    exact Iff.rfl
  have part (part? : Option Representation) :
      (∀ part ∈ part?, part.emitIdentifying.Succeeds) ↔ AdmitsPart part? :=
    forall₂_congr fun r _ => identifies r
  rw [← Emission.succeeds_iff, succeeds_emitParts_iff, part, part, part]

theorem exists_emitIndex_iff {l : Ladder} (cover : Rung.Cover indexLimit 0 l.rungs)
    {fixed : UInt8} {index : Nat} :
    (∃ octets, (l.emitIndex fixed index).toExcept = .ok octets) ↔ index < indexLimit := by
  rw [← Emission.succeeds_iff, Ladder.succeeds_emitIndex_iff cover]

theorem emitParts_partial {fixed : UInt8}
    (h : ¬(nsPrefix.isSome = true → namespaceName.isSome = true)) :
    emitParts fixed nsPrefix namespaceName localName = .failed .prefixWithoutNamespace := by
  obtain ⟨some, none⟩ := Classical.not_imp.1 h
  rw [Bool.not_eq_true, Option.isSome_eq_false_iff] at none
  rw [emitParts, some, none]
  rfl

theorem readOptionalParts_partial {first : UInt8} (h : first.toNat % 4 = 2) (input : Input) :
    readOptionalParts first input = .error .prefixWithoutNamespace input := by
  have hasPrefix : first.toNat / 2 % 2 = 1 := by omega
  have hasNamespace : first.toNat % 2 = 0 := by omega
  simp only [readOptionalParts, hasPrefix, hasNamespace]
  rfl

theorem readParts_partial {first : UInt8} (h : first.toNat % 4 = 2) (input : Input) :
    readParts first input = .error .prefixWithoutNamespace input :=
  bind_of_error (readOptionalParts_partial h input)

theorem IsProper.isWhole (h : n.IsProper) : n.IsWhole := by
  cases n with
  | indexed index => trivial
  | parts nsPrefix namespaceName localName => exact h.1.together

theorem faithful_elementLayout {fixed : UInt8} (hfixed : fixed.toNat % 64 = 0) :
    (elementLayout fixed).Faithful where
  exists_emit_iff a := by
    cases a with
    | indexed index => exact exists_emitIndex_iff Ladder.cover_indexOnThirdBit
    | parts nsPrefix namespaceName localName => exact exists_emitParts_iff
  reads_back a octets emitted := by
    obtain ⟨first, tail, split, kept, other, yields⟩ := yields_readElement hfixed emitted
    exact ⟨first, tail, split, ⟨kept, other⟩, yields.ok⟩
  emit_partial a h := by
    cases a with
    | indexed index => exact absurd trivial h
    | parts nsPrefix namespaceName localName => exact emitParts_partial h
  read_partial first announces flags input := by
    have announces : first.toNat / 4 % 16 = 15 := announces
    have high : 60 ≤ first.toNat % 64 := by omega
    change readElement first input = _
    rw [readElement, rungOfMark?_eq_none_of_high high, if_neg (by decide), if_pos announces]
    exact readParts_partial flags input
  read_whole first i n i' ok := (ensures_readElement first i n i' ok).isWhole

theorem faithful_attributeLayout : attributeLayout.Faithful where
  exists_emit_iff a := by
    cases a with
    | indexed index => exact exists_emitIndex_iff Ladder.cover_indexOnSecondBit
    | parts nsPrefix namespaceName localName => exact exists_emitParts_iff
  reads_back a octets emitted := by
    obtain ⟨first, tail, split, low, yields⟩ := yields_readAttribute emitted
    exact ⟨first, tail, split, ⟨low, Mark.not_ends_of_lt (by omega)⟩, yields.ok⟩
  emit_partial a h := by
    cases a with
    | indexed index => exact absurd trivial h
    | parts nsPrefix namespaceName localName => exact emitParts_partial h
  read_partial first announces flags input := by
    have announces : first.toNat / 4 = 0x78 / 4 := announces
    change readAttribute first input = _
    rw [readAttribute, if_pos announces]
    exact readParts_partial flags input
  read_whole first i n i' ok := (ensures_readAttribute first i n i' ok).isWhole

end NameRepresentation

namespace NamespaceAttribute

def layout : NameLayout NamespaceAttribute where
  emit := emit
  read := read
  received a := ⟨a.nsPrefix.map (·.asIdentifying), a.namespaceName.map (·.asIdentifying)⟩
  Admits a :=
    (a.nsPrefix.isSome = true → a.namespaceName.isSome = true) ∧
      NameRepresentation.AdmitsPart a.nsPrefix ∧ NameRepresentation.AdmitsPart a.namespaceName
  IsWhole a := a.nsPrefix.isSome = true → a.namespaceName.isSome = true
  Opens first := 0xCC ≤ first.toNat ∧ first.toNat ≤ 0xCF ∧ ¬Mark.Ends first
  Announces first := first.toNat / 4 = 0xCC / 4

theorem faithful_layout : layout.Faithful where
  exists_emit_iff a := by
    have nothing : NameRepresentation.AdmitsPart none := nofun
    refine NameRepresentation.exists_emitParts_iff.trans ?_
    rw [and_iff_left nothing]
    exact Iff.rfl
  reads_back a octets emitted := by
    obtain ⟨first, tail, split, kept, yields⟩ := yields_read emitted
    refine ⟨first, tail, split, ⟨?_, ?_, Mark.not_ends_of_lt ?_⟩, yields.ok⟩ <;> omega
  emit_partial a h := NameRepresentation.emitParts_partial h
  read_partial first announces flags input := by
    have announces : first.toNat / 4 = 0xCC / 4 := announces
    change read first input = _
    rw [read, announces, if_neg (by decide)]
    exact bind_of_error (NameRepresentation.readOptionalParts_partial flags input)
  read_whole first i a i' ok := (ensures_read first i a i' ok).together

end NamespaceAttribute

/-- However a name or a declaration is written, it is read back from in front of anything, and its
first octet is taken neither for an end nor for declarations. -/
theorem NameLayout.faithful :
    (∀ fixed : UInt8, fixed.toNat % 64 = 0 →
      (NameRepresentation.elementLayout fixed).Faithful) ∧
    NameRepresentation.attributeLayout.Faithful ∧ NamespaceAttribute.layout.Faithful :=
  ⟨fun _ => NameRepresentation.faithful_elementLayout,
    NameRepresentation.faithful_attributeLayout, NamespaceAttribute.faithful_layout⟩

/-- The name of `xml:lang` behind the bit for attributes, an attribute whose name is known, and the
default namespace taken back. -/
theorem NameLayout.faithful_lang :
    let lang (add : Bool) := NameRepresentation.parts (some (.indexed 0)) (some (.indexed 0))
      (.literal "lang" add)
    (∀ following offset,
      NameRepresentation.readElement 0x7F
          ⟨[0x80, 0x80, 0x03, 0x6C, 0x61, 0x6E, 0x67] ++ following, offset⟩ =
        .ok (lang true) ⟨following, offset + 7⟩) ∧
    (∀ following offset, NameRepresentation.readAttribute 0x40 ⟨[0x05] ++ following, offset⟩ =
      .ok (.indexed 0x45) ⟨following, offset + 1⟩) ∧
    ∀ following offset, NamespaceAttribute.read 0xCC ⟨following, offset⟩ =
      .ok ⟨none, none⟩ ⟨following, offset⟩ := by
  intro lang
  obtain ⟨element, attributes, declarations⟩ := faithful
  refine ⟨?_, ?_, ?_⟩
  · obtain ⟨first, tail, split, -, read⟩ := (element 0x40 (by decide)).reads_back (lang false)
      [0x7F, 0x80, 0x80, 0x03, 0x6C, 0x61, 0x6E, 0x67] rfl
    cases split
    exact read
  · obtain ⟨first, tail, split, -, read⟩ := attributes.reads_back (.indexed 0x45) [0x40, 0x05] rfl
    cases split
    exact read
  · obtain ⟨first, tail, split, -, read⟩ := declarations.reads_back ⟨none, none⟩ [0xCC] rfl
    cases split
    exact read

end BinaryXml
