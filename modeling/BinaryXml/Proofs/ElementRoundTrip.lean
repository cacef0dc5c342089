import BinaryXml.Proofs.ItemRoundTrip

/-!
# Reading back elements

The first octet of an element is written before it is known whether attributes follow, and changed
if they do. Its declarations and its name are read alike in both cases; only what the decoder
expects after the name differs.
-/

namespace BinaryXml

namespace Decoder

variable {c : Codec} {t : Tables} {item : Item}

/-- The octets of an element, whose first one announces its attributes. -/
def flagged (attributed : Bool) : Octets → Octets
  | [] => []
  | first :: tail => (first ||| flagBit attributed Mark.attributes) :: tail

@[simp] theorem flagged_false (octets : Octets) : flagged false octets = octets := by
  cases octets with
  | nil => rfl
  | cons first tail => simp [flagged, flagBit]

theorem flagged_append {front : Octets} (h : front ≠ []) (attributed : Bool) (back : Octets) :
    flagged attributed (front ++ back) = flagged attributed front ++ back := by
  cases front with
  | nil => exact absurd rfl h
  | cons first tail => rfl

/-- Events and state once the name of an element is read. -/
def named (v : Vocabulary) (depth : Nat) (attributed : Bool) (tag : Tag) : List Event × State :=
  if attributed then ([], { vocabulary := v, depth, phase := .attributes tag })
  else ([tag.event], { vocabulary := v, depth := depth + 1 })

/-! ## The first octet -/

/-- The announcement of attributes can be told from the rest of a first octet. -/
theorem announced : ∀ n < 64, ∀ attributed : Bool,
    let first := UInt8.ofNat n ||| flagBit attributed Mark.attributes
    first.toNat < 0x80 ∧ first &&& 0x3F = UInt8.ofNat n ∧
      decide (first &&& Mark.attributes ≠ 0) = attributed := by
  decide

theorem readItem_of_element {first : UInt8} (low : first.toNat < 0x40) (attributed : Bool)
    (v : Vocabulary) (depth : Nat) :
    readItem c v depth (first ||| flagBit attributed Mark.attributes) =
      if first = Mark.declarations then
        pure ([], { vocabulary := v, depth, phase := .declarations attributed [] })
      else readName v depth attributed [] first := by
  obtain ⟨small, kept, flag⟩ := announced first.toNat low attributed
  rw [UInt8.ofNat_toNat] at small kept flag
  have other {mark : UInt8} (h : 0x80 ≤ mark.toNat) :
      first ||| flagBit attributed Mark.attributes ≠ mark := by
    intro same
    rw [same] at small
    omega
  unfold readItem
  rw [if_neg (other (by decide)), if_neg (other (by decide)), if_neg (other (by decide)),
    if_neg (other (by decide)), if_pos small]
  simp only [readElement, kept, flag]

/-- Declarations may follow at once. -/
theorem yields_startDeclarations (attributed : Bool) (v : Vocabulary) (depth : Nat) :
    Yields (step c { vocabulary := v, depth }) (flagged attributed [Mark.declarations])
      ([], { vocabulary := v, depth, phase := .declarations attributed [] }) := by
  refine step_of_octet ?_
  change Becomes (readItem _ _ _ _) _ _
  rw [readItem_of_element (by decide), if_pos rfl]
  exact yields_pure _

/-! ## Declarations and names -/

theorem yields_declaration {d : NamespaceDeclaration}
    (h : Item.ofDeclaration t d.nsPrefix d.namespaceName = .ok item) (fresh : item.IsFresh t)
    (depth : Nat) (attributed : Bool) (declared : List NamespaceDeclaration) :
    Yields
      (step c
        { vocabulary := t.vocabulary.settled, depth, phase := .declarations attributed declared })
      item.octets
      ([], { vocabulary := (item.enterInto t).vocabulary.settled, depth,
             phase := .declarations attributed (d :: declared) }) := by
  obtain ⟨emitted, entries⟩ := Item.ofEmission_eq_ok h
  obtain ⟨first, tail, split, kept, read⟩ := NamespaceAttribute.yields_read emitted
  have other : first ≠ Mark.terminator := by
    rintro rfl
    exact absurd kept (by decide)
  have resolved := Tables.resolveDeclaration_of_denotes (t.partDenotes_identifying _ d.nsPrefix)
    (t.partDenotes_identifying _ d.namespaceName) entries fresh
  rw [split]
  refine step_of_octet ?_
  change Becomes (readDeclaration _ _ _ _ _) _ _
  rw [readDeclaration, if_neg other]
  refine (Reading.yields_ofParser read).bind.done ?_
  exact (Reading.yields_ofExcept resolved).bind.done (yields_pure _)

/-- The octets of a name are read the same wherever the name of the element is expected. -/
theorem yields_readName {reference : NameReference}
    (h : Item.ofName t .element reference = .ok item) (fresh : item.IsFresh t) :
    ∃ name first tail, reference.name? t.vocabulary .element = some name ∧
      item.octets = first :: tail ∧ first.toNat < 0x40 ∧ first ≠ Mark.declarations ∧
      ∀ depth attributed declarations,
        Yields (readName t.vocabulary.settled depth attributed declarations first) tail
          (named (item.enterInto t).vocabulary.settled depth attributed
            { name, declarations }) := by
  obtain ⟨name, r, known, emitted, resolved⟩ := Item.resolveName_of_ofName h fresh
  obtain ⟨first, tail, split, kept, notDeclarations, read⟩ :=
    NameRepresentation.yields_readElement (by decide) emitted
  have low : first.toNat < 0x40 := Nat.lt_of_div_eq_zero (by decide) kept
  have other : first ≠ Mark.declarations := by
    rintro rfl
    exact notDeclarations (by decide)
  refine ⟨name, first, tail, known, split, low, other, ?_⟩
  intro depth attributed declarations
  refine (Reading.yields_ofParser read).bind.done ?_
  refine (Reading.yields_ofExcept resolved).bind.done ?_
  cases attributed <;> exact yields_pure _

theorem yields_elementName {reference : NameReference}
    (h : Item.ofName t .element reference = .ok item) (fresh : item.IsFresh t) :
    ∃ name, reference.name? t.vocabulary .element = some name ∧
      (∀ depth attributed,
        Yields (step c { vocabulary := t.vocabulary.settled, depth })
          (flagged attributed item.octets)
          (named (item.enterInto t).vocabulary.settled depth attributed
            { name, declarations := [] })) ∧
      ∀ depth attributed declared,
        Yields
          (step c
            { vocabulary := t.vocabulary.settled, depth,
              phase := .declarations attributed declared })
          (Mark.terminator :: item.octets)
          (named (item.enterInto t).vocabulary.settled depth attributed
            { name, declarations := declared.reverse }) := by
  obtain ⟨name, first, tail, known, split, low, other, read⟩ := yields_readName h fresh
  refine ⟨name, known, ?_, ?_⟩
  · intro depth attributed
    rw [split]
    refine step_of_octet ?_
    change Becomes (readItem _ _ _ _) _ _
    rw [readItem_of_element low, if_neg other]
    exact read depth attributed []
  · intro depth attributed declared
    have unflagged : first &&& 0xC0 = 0 := by
      have := (by decide : ∀ n < 64, UInt8.ofNat n &&& 0xC0 = 0) first.toNat low
      rwa [UInt8.ofNat_toNat] at this
    rw [split]
    refine step_of_octet ?_
    change Becomes (readDeclaration _ _ _ _ _) _ _
    rw [readDeclaration, if_pos rfl]
    refine ((Reading.yields_ofParser (Parser.yields_octet first)).bind.trans ?_ :
      Becomes _ ([first] ++ tail) _)
    rw [if_neg (by rw [unflagged]; decide)]
    exact read depth attributed declared.reverse

/-! ## Attributes -/

/-- What is left to read of an attribute once its name is known. -/
def readValue (c : Codec) (v : Vocabulary) (depth : Nat) (tag : Tag) (name : QualifiedName) :
    Reading (List Event × State) := do
  let representation ← Reading.ofParser Representation.readNonIdentifying
  let (value, vocabulary) ← Reading.ofExcept (v.resolveContent c .attributeValue representation)
  let tag := { tag with attributes := { name, value } :: tag.attributes }
  return ([], { vocabulary, depth, phase := .attributes tag })

theorem becomes_attributeName {reference : NameReference}
    (h : Item.ofName t .attribute reference = .ok item) (fresh : item.IsFresh t) (depth : Nat)
    (tag : Tag) :
    ∃ name, reference.name? t.vocabulary .attribute = some name ∧
      Becomes (step c { vocabulary := t.vocabulary.settled, depth, phase := .attributes tag })
        item.octets (readValue c (item.enterInto t).vocabulary.settled depth tag name) := by
  obtain ⟨name, r, known, emitted, resolved⟩ := Item.resolveName_of_ofName h fresh
  obtain ⟨first, tail, split, low, read⟩ := NameRepresentation.yields_readAttribute emitted
  have other {mark : UInt8} (high : 0x80 ≤ mark.toNat) : first ≠ mark := by
    rintro rfl
    omega
  refine ⟨name, known, ?_⟩
  rw [split, ← List.append_nil tail]
  refine step_of_octet ?_
  change Becomes (readAttribute _ _ _ _ _) _ _
  rw [readAttribute, if_neg (other (by decide)), if_neg (other (by decide))]
  refine (Reading.yields_ofParser read).bind.trans ?_
  exact (Reading.yields_ofExcept resolved).bind

theorem becomes_value {value : Content} (h : Item.ofValue c t value = .ok item)
    (fresh : item.IsFresh t) (depth : Nat) (tag : Tag) (name : QualifiedName) :
    Becomes (readValue c t.vocabulary.settled depth tag name) item.octets (do
      let value ← Reading.ofExcept ((value.asValue c).received c)
      let tag := { tag with attributes := { name, value } :: tag.attributes }
      return ([], { vocabulary := (item.enterInto t).vocabulary.settled, depth,
                    phase := .attributes tag })) := by
  obtain ⟨r?, represented, made⟩ := Item.ofValue_eq_ok h
  obtain ⟨emitted, entries⟩ := Item.ofEmission_eq_ok made
  obtain ⟨plain, resolved⟩ :=
    Tables.resolveContent_of_value represented rfl (fresh.single entries)
  have read := Representation.yields_readNonIdentifying emitted
  rw [plain] at read
  rw [Item.enterInto_single entries]
  refine (Reading.yields_ofParser read).bind.of_eq ?_
  rw [resolved]
  exact Reading.ofExcept_map_bind _ _ _

end Decoder

end BinaryXml
