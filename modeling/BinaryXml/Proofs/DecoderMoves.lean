import BinaryXml.Proofs.ProperNames

/-!
# The moves of a decoder

A step of a decoder completes at most two events, and each part of them is what the tables make of
something that was read. The moves list all that a step can do, so that what every step keeps is
proved by cases on them.
-/

namespace BinaryXml

/-! ## Packed octets -/

namespace Representation

/-- Packed octets are there. -/
def IsFilled (r : Representation) : Prop :=
  ∀ packing id octets add, r = .packed packing id octets add → octets ≠ []

theorem ensures_readInManner {l : Ladder} (positive : ∀ r ∈ l.rungs, 1 ≤ r.least)
    (first : UInt8) : Ensures (readInManner l first) IsFilled := by
  unfold readInManner
  dsimp only
  split
  · exact ensures_bind fun _ => ensures_bind fun _ => ensures_pure nofun
  · refine ensures_bind fun second => ?_
    refine (Ladder.ensures_readString positive second).bind fun octets filled => ensures_pure ?_
    rintro _ _ _ _ ⟨⟩
    exact filled

theorem ensures_readNonIdentifying : Ensures readNonIdentifying IsFilled := by
  refine ensures_bind fun first => ensures_ite (fun _ => ensures_pure nofun) fun _ => ?_
  refine ensures_ite (fun _ => ensures_bind fun index => ensures_pure nofun) fun _ => ?_
  exact ensures_readInManner (by decide) first

theorem ensures_readChunk (first : UInt8) : Ensures (readChunk first) IsFilled := by
  refine ensures_ite (fun _ => ensures_unexpected _ _) fun _ => ?_
  refine ensures_ite (fun _ => ensures_bind fun index => ensures_pure nofun) fun _ => ?_
  exact ensures_readInManner (by decide) first

end Representation

/-! ## Moves -/

namespace Decoder

/-- Where the name of an element may stand, and the declarations in front of it. -/
inductive Phase.Begins : Phase → List NamespaceDeclaration → Prop
  | bare : Begins .children []
  | declared (attributed : Bool) (declared : List NamespaceDeclaration) :
    Begins (.declarations attributed declared) declared.reverse

/-- What a step in one state may complete and lead to. -/
inductive Moves (c : Codec) : State → List Event × State → Prop
  | stop (v : Vocabulary) (depth : Nat) :
    Moves c { vocabulary := v, depth := depth + 1 } ([.endElement], { vocabulary := v, depth })
  | finish (v : Vocabulary) :
    Moves c { vocabulary := v } ([.endDocument], { vocabulary := v, phase := .ended })
  | stopTwice (v : Vocabulary) (depth : Nat) :
    Moves c { vocabulary := v, depth := depth + 2 }
      ([.endElement, .endElement], { vocabulary := v, depth })
  | stopAndFinish (v : Vocabulary) :
    Moves c { vocabulary := v, depth := 1 }
      ([.endElement, .endDocument], { vocabulary := v, phase := .ended })
  | instruction {v v' v'' : Vocabulary} {depth : Nat} {r r' : Representation} {target data : String}
      (literal : r.IsProper) (named : v.resolvePart .otherNcName (some r) = .ok (target, v'))
      (resolved : v'.resolveText c .otherString r' = .ok (data, v'')) :
    Moves c { vocabulary := v, depth } ([.instruction target data], { vocabulary := v'', depth })
  | comment {v v' : Vocabulary} {depth : Nat} {r : Representation} {text : String}
      (resolved : v.resolveText c .otherString r = .ok (text, v')) :
    Moves c { vocabulary := v, depth } ([.comment text], { vocabulary := v', depth })
  | characters {v v' : Vocabulary} {depth : Nat} {r : Representation} {content : Content}
      (inside : 0 < depth) (filled : r.IsFilled)
      (resolved : v.resolveContent c .characterChunk r = .ok (content, v')) :
    Moves c { vocabulary := v, depth } ([.characters content], { vocabulary := v', depth })
  | declarations (v : Vocabulary) (depth : Nat) (attributed : Bool) :
    Moves c { vocabulary := v, depth }
      ([], { vocabulary := v, depth, phase := .declarations attributed [] })
  | declaration {v v' : Vocabulary} {depth : Nat} {attributed : Bool}
      {declared : List NamespaceDeclaration} {a : NamespaceAttribute} {d : NamespaceDeclaration}
      (literals : a.IsProper) (resolved : v.resolveDeclaration a = .ok (d, v')) :
    Moves c { vocabulary := v, depth, phase := .declarations attributed declared }
      ([], { vocabulary := v', depth, phase := .declarations attributed (d :: declared) })
  | name {v v' : Vocabulary} {depth : Nat} {phase : Phase} {ds : List NamespaceDeclaration}
      {r : NameRepresentation} {name : QualifiedName} (begins : phase.Begins ds)
      (literals : r.IsProper) (resolved : v.resolveName .element r = .ok (name, v')) :
    Moves c { vocabulary := v, depth, phase }
      ([], { vocabulary := v', depth, phase := .attributes { name, declarations := ds } })
  | element {v v' : Vocabulary} {depth : Nat} {phase : Phase} {ds : List NamespaceDeclaration}
      {r : NameRepresentation} {name : QualifiedName} (begins : phase.Begins ds)
      (literals : r.IsProper) (resolved : v.resolveName .element r = .ok (name, v')) :
    Moves c { vocabulary := v, depth, phase }
      ([.startElement name ds []], { vocabulary := v', depth := depth + 1 })
  | attributed {v v' v'' : Vocabulary} {depth : Nat} {tag : Tag} {r : NameRepresentation}
      {r' : Representation} {name : QualifiedName} {value : Content} (literals : r.IsProper)
      (named : v.resolveName .attribute r = .ok (name, v')) (filled : r'.IsFilled)
      (resolved : v'.resolveContent c .attributeValue r' = .ok (value, v'')) :
    Moves c { vocabulary := v, depth, phase := .attributes tag }
      ([], {
        vocabulary := v'', depth
        phase := .attributes { tag with attributes := { name, value } :: tag.attributes } })
  | tag (v : Vocabulary) (depth : Nat) (tag : Tag) :
    Moves c { vocabulary := v, depth, phase := .attributes tag }
      ([tag.event], { vocabulary := v, depth := depth + 1 })
  | emptyTag (v : Vocabulary) (depth : Nat) (tag : Tag) :
    Moves c { vocabulary := v, depth, phase := .attributes tag }
      ([tag.event, .endElement], { vocabulary := v, depth })
  | ended (v : Vocabulary) (depth : Nat) :
    Moves c { vocabulary := v, depth, phase := .ended }
      ([], { vocabulary := v, depth, phase := .ended })

variable {c : Codec}

theorem moves_of_readName {phase : Phase} {ds : List NamespaceDeclaration}
    (begins : phase.Begins ds) (v : Vocabulary) (depth : Nat) (attributed : Bool) (first : UInt8) :
    Ensures (readName v depth attributed ds first)
      (Moves c { vocabulary := v, depth, phase }) := by
  refine (Reading.ensures_ofParser (NameRepresentation.ensures_readElement first)).bind
    fun r literals => ?_
  refine (Reading.ensures_ofExcept_eq _).bind fun named resolved => ?_
  refine ensures_ite (fun _ => ensures_pure ?_) (fun _ => ensures_pure ?_)
  · exact .name begins literals resolved
  · exact .element begins literals resolved

theorem moves_of_readCharacters (v : Vocabulary) {depth : Nat} (inside : 0 < depth)
    (first : UInt8) :
    Ensures (readCharacters c v depth first) (Moves c { vocabulary := v, depth }) := by
  refine (Reading.ensures_ofParser (Representation.ensures_readChunk first)).bind
    fun r filled => ?_
  refine (Reading.ensures_ofExcept_eq _).bind fun content resolved => ?_
  exact ensures_pure (.characters inside filled resolved)

theorem moves_of_readInstruction (v : Vocabulary) (depth : Nat) :
    Ensures (readInstruction c v depth) (Moves c { vocabulary := v, depth }) := by
  refine (Reading.ensures_ofParser Representation.ensures_readIdentifying).bind
    fun r literal => ?_
  refine (Reading.ensures_ofExcept_eq _).bind fun target named => ?_
  refine ensures_bind fun r' => (Reading.ensures_ofExcept_eq _).bind fun data resolved => ?_
  exact ensures_pure (.instruction literal named resolved)

theorem moves_of_readItem (v : Vocabulary) (depth : Nat) (first : UInt8) :
    Ensures (readItem c v depth first) (Moves c { vocabulary := v, depth }) := by
  unfold readItem
  split
  · cases depth with
    | zero => exact ensures_pure (.finish v)
    | succ depth => exact ensures_pure (.stop v depth)
  split
  · cases depth with
    | zero => exact Reading.ensures_ofParser (ensures_unexpected _ _)
    | succ depth =>
        cases depth with
        | zero => exact ensures_pure (.stopAndFinish v)
        | succ depth => exact ensures_pure (.stopTwice v depth)
  split
  · exact moves_of_readInstruction v depth
  split
  · refine ensures_bind fun r => (Reading.ensures_ofExcept_eq _).bind fun text resolved => ?_
    exact ensures_pure (.comment resolved)
  split
  · refine ensures_ite (fun _ => ensures_pure (.declarations v depth _)) fun _ => ?_
    exact moves_of_readName .bare v depth _ _
  split
  · next inside => exact moves_of_readCharacters v inside.2 first
  · exact Reading.ensures_ofParser (ensures_unexpected _ _)

theorem moves_of_readDeclaration (v : Vocabulary) (depth : Nat) (attributed : Bool)
    (declared : List NamespaceDeclaration) (first : UInt8) :
    Ensures (readDeclaration v depth attributed declared first)
      (Moves c { vocabulary := v, depth, phase := .declarations attributed declared }) := by
  refine ensures_ite (fun _ => ensures_bind fun octet => ?_) fun _ => ?_
  · refine ensures_ite (fun _ => Reading.ensures_ofParser (ensures_unexpected _ _)) fun _ => ?_
    exact moves_of_readName (.declared attributed declared) v depth attributed octet
  · refine (Reading.ensures_ofParser (NamespaceAttribute.ensures_read first)).bind
      fun a literals => ?_
    refine (Reading.ensures_ofExcept_eq _).bind fun d resolved => ?_
    exact ensures_pure (.declaration literals resolved)

theorem moves_of_readAttribute (v : Vocabulary) (depth : Nat) (tag : Tag) (first : UInt8) :
    Ensures (readAttribute c v depth tag first)
      (Moves c { vocabulary := v, depth, phase := .attributes tag }) := by
  refine ensures_ite (fun _ => ensures_pure (.tag v depth tag)) fun _ => ?_
  refine ensures_ite (fun _ => ensures_pure (.emptyTag v depth tag)) fun _ => ?_
  refine (Reading.ensures_ofParser (NameRepresentation.ensures_readAttribute first)).bind
    fun r literals => ?_
  refine (Reading.ensures_ofExcept_eq _).bind fun name named => ?_
  refine (Reading.ensures_ofParser Representation.ensures_readNonIdentifying).bind
    fun r' filled => ?_
  refine (Reading.ensures_ofExcept_eq _).bind fun value resolved => ?_
  exact ensures_pure (.attributed literals named filled resolved)

theorem moves_of_step {s : State} : Ensures (step c s) (Moves c s) := by
  refine ensures_bind fun first => ?_
  obtain ⟨v, depth, phase⟩ := s
  cases phase with
  | children => exact moves_of_readItem v depth first
  | declarations attributed declared =>
      exact moves_of_readDeclaration v depth attributed declared first
  | attributes tag => exact moves_of_readAttribute v depth tag first
  | ended => exact ensures_pure (.ended v depth)

end Decoder

end BinaryXml
