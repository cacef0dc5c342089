import BinaryXml.Mark
import BinaryXml.Resolution

/-!
# Reading documents

A document is read in steps. Each step takes an item, a declaration, an attribute or a terminator
off the input, and may complete events. Elements that are open are counted and not recursed into,
so nesting costs nothing. Every step moves forward (`rest_length_lt_of_step`), which is why
reading ends.
-/

namespace BinaryXml

/-- Reading with everything that can go wrong in a codec. -/
abbrev Reading := EStateM CodecError Input

namespace Reading

def ofParser {α : Type} (p : Parser α) : Reading α := fun i =>
  match p i with
  | .ok a i => .ok a i
  | .error cause i => .error (.format cause) i

def ofExcept {α : Type} : Except CodecError α → Reading α
  | .ok a => pure a
  | .error cause => throw cause

instance : MonadLift Parser Reading := ⟨ofParser⟩

instance : MonadLift (Except CodecError) Reading := ⟨ofExcept⟩

theorem consumes_ofParser {α : Type} {p : Parser α} (h : Consumes p) :
    Consumes (ofParser p) := by
  intro i a i' ok
  unfold ofParser at ok
  split at ok
  · next hp =>
      cases ok
      exact h _ _ _ hp
  · cases ok

theorem consumes_ofExcept {α : Type} (r : Except CodecError α) : Consumes (ofExcept r) := by
  cases r with
  | ok a => exact consumes_pure a
  | error cause => exact consumes_throw cause

end Reading

namespace Decoder

/-! ## The header -/

/-- The only vocabulary component is the URI of an external vocabulary. -/
def readVocabularyUri : Parser String := do
  let first ← Parser.octet
  let second ← Parser.octet
  if first ≠ Mark.externalVocabulary ∨ second ≠ 0x00 then
    Parser.unexpected first "initial vocabulary"
  else
    let octet ← Parser.octet
    if 0x80 ≤ octet.toNat then Parser.unexpected octet "external vocabulary URI"
    else
      let octets ← lengthOnSecondBit.readString octet
      Parser.text .utf8 octets

def readStandalone : Parser Bool := do
  let octet ← Parser.octet
  if octet = 0 then return false
  else if octet = 1 then return true
  else Parser.unexpected octet "standalone"

def readStandalone? (isPresent : Bool) : Parser (Option Bool) :=
  if isPresent then some <$> readStandalone else pure none

/-- The tables that a document starts from, with their name if it gives one. -/
def readTables (c : Codec) (isNamed : Bool) : Reading (Option String × Vocabulary) :=
  if isNamed then do
    let uri ← readVocabularyUri
    match c.external uri with
    | .ok shared => pure (some uri, shared.vocabulary)
    | .error cause => throw (.format cause)
  else pure (none, Vocabulary.standard)

/-- The header and the tables that the document starts with. -/
def readHeader (c : Codec) : Reading (DocumentHeader × Vocabulary) := do
  let components ← Components.read
  let (externalVocabulary, v) ← readTables c components.vocabulary
  let standalone ← readStandalone? components.standalone
  if components.version then
    let representation ← Representation.readNonIdentifying
    let (version, v) ← v.resolveText c .otherString representation
    return ({ externalVocabulary, standalone, version := some version }, v)
  else return ({ externalVocabulary, standalone }, v)

/-! ## Steps -/

/-- An element whose attributes are being read, the latest first. -/
structure Tag where
  name : QualifiedName
  declarations : List NamespaceDeclaration
  attributes : List Attribute := []

inductive Phase
  /-- Before an item of the document or of an open element. -/
  | children
  /-- Among the declarations of an element, listed latest first. -/
  | declarations (attributed : Bool) (declared : List NamespaceDeclaration)
  | attributes (tag : Tag)
  | ended

structure State where
  vocabulary : Vocabulary
  /-- How many elements are open. -/
  depth : Nat := 0
  phase : Phase := .children

def Tag.event (t : Tag) : Event :=
  .startElement t.name t.declarations t.attributes.reverse

/-- The innermost element ends, or else the document. -/
def close : Nat → Event × Nat × Phase
  | 0 => (.endDocument, 0, .ended)
  | depth + 1 => (.endElement, depth, .children)

/-- The name that `first` begins, and what follows it. -/
def readName (v : Vocabulary) (depth : Nat) (attributed : Bool)
    (declarations : List NamespaceDeclaration) (first : UInt8) : Reading (List Event × State) := do
  let representation ← NameRepresentation.readElement first
  let (name, vocabulary) ← v.resolveName .element representation
  let tag : Tag := { name, declarations }
  if attributed then return ([], { vocabulary, depth, phase := .attributes tag })
  else return ([tag.event], { vocabulary, depth := depth + 1 })

def readElement (v : Vocabulary) (depth : Nat) (first : UInt8) : Reading (List Event × State) :=
  let attributed := first &&& Mark.attributes ≠ 0
  if first &&& 0x3F = Mark.declarations then
    pure ([], { vocabulary := v, depth, phase := .declarations attributed [] })
  else readName v depth attributed [] (first &&& 0x3F)

def readComment (c : Codec) (v : Vocabulary) (depth : Nat) : Reading (List Event × State) := do
  let representation ← Representation.readNonIdentifying
  let (text, vocabulary) ← v.resolveText c .otherString representation
  return ([.comment text], { vocabulary, depth })

def readInstruction (c : Codec) (v : Vocabulary) (depth : Nat) : Reading (List Event × State) := do
  let target ← Representation.readIdentifying
  let (target, v) ← v.resolvePart .otherNcName (some target)
  let data ← Representation.readNonIdentifying
  let (data, vocabulary) ← v.resolveText c .otherString data
  return ([.instruction target data], { vocabulary, depth })

def readCharacters (c : Codec) (v : Vocabulary) (depth : Nat) (first : UInt8) :
    Reading (List Event × State) := do
  let representation ← Representation.readChunk first
  let (content, vocabulary) ← v.resolveContent c .characterChunk representation
  return ([.characters content], { vocabulary, depth })

/-- The item that `first` begins. Text stands inside elements only. -/
def readItem (c : Codec) (v : Vocabulary) (depth : Nat) (first : UInt8) :
    Reading (List Event × State) :=
  if first = Mark.terminator then
    let (event, depth, phase) := close depth
    pure ([event], { vocabulary := v, depth, phase })
  else if first = Mark.doubleTerminator then
    match depth with
    | 0 => liftM (Parser.unexpected first "document end" : Parser _)
    | depth + 1 =>
      let (event, depth, phase) := close depth
      pure ([.endElement, event], { vocabulary := v, depth, phase })
  else if first = Mark.instruction then readInstruction c v depth
  else if first = Mark.comment then readComment c v depth
  else if first.toNat < 0x80 then readElement v depth first
  else if first.toNat < 0xC0 ∧ 0 < depth then readCharacters c v depth first
  else
    liftM (Parser.unexpected first
      (if depth = 0 then "document children" else "element children") : Parser _)

/-- A declaration, or the end of the declarations with the name of their element. -/
def readDeclaration (v : Vocabulary) (depth : Nat) (attributed : Bool)
    (declared : List NamespaceDeclaration) (first : UInt8) : Reading (List Event × State) := do
  if first = Mark.terminator then
    let octet ← Parser.octet
    if octet &&& 0xC0 ≠ 0 then Parser.unexpected octet "element name"
    else readName v depth attributed declared.reverse octet
  else
    let a ← NamespaceAttribute.read first
    let (declaration, vocabulary) ← v.resolveDeclaration a
    return ([], { vocabulary, depth, phase := .declarations attributed (declaration :: declared) })

/-- An attribute, or the end of the attributes and perhaps of their element. -/
def readAttribute (c : Codec) (v : Vocabulary) (depth : Nat) (tag : Tag) (first : UInt8) :
    Reading (List Event × State) := do
  if first = Mark.terminator then return ([tag.event], { vocabulary := v, depth := depth + 1 })
  else if first = Mark.doubleTerminator then
    return ([tag.event, .endElement], { vocabulary := v, depth })
  else
    let representation ← NameRepresentation.readAttribute first
    let (name, v) ← v.resolveName .attribute representation
    let representation ← Representation.readNonIdentifying
    let (value, vocabulary) ← v.resolveContent c .attributeValue representation
    let tag := { tag with attributes := { name, value } :: tag.attributes }
    return ([], { vocabulary, depth, phase := .attributes tag })

/-- What `first` begins in each phase. -/
def readAfter (c : Codec) (s : State) (first : UInt8) : Reading (List Event × State) :=
  match s.phase with
  | .children => readItem c s.vocabulary s.depth first
  | .declarations attributed declared =>
    readDeclaration s.vocabulary s.depth attributed declared first
  | .attributes tag => readAttribute c s.vocabulary s.depth tag first
  | .ended => pure ([], s)

def step (c : Codec) (s : State) : Reading (List Event × State) := do
  let first ← Parser.octet
  readAfter c s first

/-! ## Steps move forward -/

theorem consumes_readName (v : Vocabulary) (depth : Nat) (attributed : Bool)
    (declarations : List NamespaceDeclaration) (first : UInt8) :
    Consumes (readName v depth attributed declarations first) :=
  consumes_bind (Reading.consumes_ofParser (NameRepresentation.consumes_readElement _)) fun _ =>
    consumes_bind (Reading.consumes_ofExcept _) fun _ =>
      consumes_ite (consumes_pure _) (consumes_pure _)

theorem consumes_readElement (v : Vocabulary) (depth : Nat) (first : UInt8) :
    Consumes (readElement v depth first) :=
  consumes_ite (consumes_pure _) (consumes_readName _ _ _ _ _)

theorem consumes_readNonIdentifying :
    Consumes (Reading.ofParser Representation.readNonIdentifying) :=
  Reading.consumes_ofParser Representation.consumes_readNonIdentifying

theorem consumes_readComment (c : Codec) (v : Vocabulary) (depth : Nat) :
    Consumes (readComment c v depth) :=
  consumes_bind consumes_readNonIdentifying fun _ =>
    consumes_bind (Reading.consumes_ofExcept _) fun _ => consumes_pure _

theorem consumes_readInstruction (c : Codec) (v : Vocabulary) (depth : Nat) :
    Consumes (readInstruction c v depth) :=
  consumes_bind (Reading.consumes_ofParser Representation.consumes_readIdentifying) fun _ =>
    consumes_bind (Reading.consumes_ofExcept _) fun _ =>
      consumes_bind consumes_readNonIdentifying fun _ =>
        consumes_bind (Reading.consumes_ofExcept _) fun _ => consumes_pure _

theorem consumes_readCharacters (c : Codec) (v : Vocabulary) (depth : Nat) (first : UInt8) :
    Consumes (readCharacters c v depth first) :=
  consumes_bind (Reading.consumes_ofParser (Representation.consumes_readChunk _)) fun _ =>
    consumes_bind (Reading.consumes_ofExcept _) fun _ => consumes_pure _

theorem consumes_unexpected {α : Type} (first : UInt8) (context : String) :
    Consumes (Reading.ofParser (Parser.unexpected first context : Parser α)) :=
  Reading.consumes_ofParser (Parser.consumes_unexpected _ _)

theorem consumes_readItem (c : Codec) (v : Vocabulary) (depth : Nat) (first : UInt8) :
    Consumes (readItem c v depth first) := by
  refine consumes_ite (consumes_pure _) (consumes_ite ?_ (consumes_ite ?_ (consumes_ite ?_
    (consumes_ite ?_ (consumes_ite ?_ ?_)))))
  · cases depth with
    | zero => exact consumes_unexpected _ _
    | succ depth => exact consumes_pure _
  · exact consumes_readInstruction _ _ _
  · exact consumes_readComment _ _ _
  · exact consumes_readElement _ _ _
  · exact consumes_readCharacters _ _ _ _
  · exact consumes_unexpected _ _

theorem consumes_readDeclaration (v : Vocabulary) (depth : Nat) (attributed : Bool)
    (declared : List NamespaceDeclaration) (first : UInt8) :
    Consumes (readDeclaration v depth attributed declared first) := by
  refine consumes_ite ?_ ?_
  · exact consumes_bind (Reading.consumes_ofParser Parser.consumes_octet) fun _ =>
      consumes_ite (consumes_unexpected _ _) (consumes_readName _ _ _ _ _)
  · exact consumes_bind (Reading.consumes_ofParser (NamespaceAttribute.consumes_read _)) fun _ =>
      consumes_bind (Reading.consumes_ofExcept _) fun _ => consumes_pure _

theorem consumes_readAttribute (c : Codec) (v : Vocabulary) (depth : Nat) (tag : Tag)
    (first : UInt8) : Consumes (readAttribute c v depth tag first) := by
  refine consumes_ite (consumes_pure _) (consumes_ite (consumes_pure _) ?_)
  exact consumes_bind (Reading.consumes_ofParser (NameRepresentation.consumes_readAttribute _))
    fun _ => consumes_bind (Reading.consumes_ofExcept _) fun _ =>
      consumes_bind consumes_readNonIdentifying fun _ =>
        consumes_bind (Reading.consumes_ofExcept _) fun _ => consumes_pure _

theorem consumes_readAfter (c : Codec) (s : State) (first : UInt8) :
    Consumes (readAfter c s first) := by
  unfold readAfter
  split
  · exact consumes_readItem _ _ _ _
  · exact consumes_readDeclaration _ _ _ _ _
  · exact consumes_readAttribute _ _ _ _ _
  · exact consumes_pure _

theorem rest_length_lt_of_step {c : Codec} {s : State} {i i' : Input} {r : List Event × State}
    (h : step c s i = .ok r i') : i'.rest.length < i.rest.length := by
  change EStateM.bind (Reading.ofParser Parser.octet) (readAfter c s) i = _ at h
  unfold EStateM.bind at h
  split at h
  · next first j hj =>
      have left : j.rest.length < i.rest.length := by
        unfold Reading.ofParser at hj
        split at hj
        · next ho =>
            cases hj
            exact Parser.rest_length_lt_of_octet ho
        · cases hj
      have := (consumes_readAfter c s first j r i' h).rest_suffix.length_le
      omega
  · cases h

/-! ## Whole documents -/

/-- Steps until the document has ended; `events` are those completed before. -/
def run (c : Codec) (s : State) (events : Array Event) (i : Input) :
    Except CodecError (Array Event × Octets) :=
  match _ok : step c s i with
  | .error cause _ => .error cause
  | .ok (completed, s) rest =>
    match s.phase with
    | .ended => .ok (events.appendList completed, rest.rest)
    | _ => run c s (events.appendList completed) rest
termination_by i.rest.length
decreasing_by exact rest_length_lt_of_step ‹_›

end Decoder

/-- The events of a document, which has to end with the octets. -/
def Codec.decode (c : Codec) (octets : Octets) : Except CodecError (List Event) :=
  match Decoder.readHeader c ⟨octets, 0⟩ with
  | .error cause _ => .error cause
  | .ok (header, vocabulary) input =>
    match Decoder.run c { vocabulary } #[.startDocument header] input with
    | .error cause => .error cause
    | .ok (events, rest) =>
      if rest.isEmpty then .ok events.toList
      else .error (.format (.trailingOctets rest.length))

end BinaryXml
