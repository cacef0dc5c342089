import BinaryXml.Call
import BinaryXml.Codec
import BinaryXml.Mark
import BinaryXml.NameRepresentation

/-!
# Items

An item is what one call of a writer contributes: octets, and entries that the octets ask the
reader to make. What is in a table already is written as its index.
-/

namespace BinaryXml

/-- The tables of a writer, and how much text two of them have taken in. -/
structure Tables where
  vocabulary : Vocabulary
  chunkOctets : Nat := 0
  valueOctets : Nat := 0

/-- A string is entered only if its representation is a literal that asks for it. -/
inductive Entry
  | string (kind : StringKind) (representation : Representation)
  | name (kind : NameKind) (name : QualifiedName)

namespace Tables

def taken (t : Tables) : StringKind → Nat
  | .characterChunk => t.chunkOctets
  | .attributeValue => t.valueOctets
  | _ => 0

/-! ## Entries -/

/-- The error of making an entry that is there already. -/
def conflict? (t : Tables) : Entry → Option VocabularyError
  | .string kind (.literal value true) =>
    let table := t.vocabulary.strings kind
    if !table.isFull && table.contains value then some (Table.duplicate (.strings kind) value)
    else none
  | .string _ _ => none
  | .name kind name =>
    let table := t.vocabulary.names kind
    if !table.isFull && table.contains name then some (Table.duplicate (.names kind) name)
    else none

/-- A table that is full, or holds the entry, stays as it is. -/
def absorb {kind : TableKind} {α : Type} [DecidableEq α] [Hashable α] (table : Table kind α)
    (v : α) : Bool × Table kind α :=
  if table.isFull then (false, table)
  else if isNew : table.indexOf? v = none then (true, table.insert v isNew)
  else (false, table)

def enter (t : Tables) : Entry → Tables
  | .string kind (.literal value true) =>
    match t with
    | ⟨vocabulary, chunkOctets, valueOctets⟩ =>
      let (taken, vocabulary) := vocabulary.mapStrings kind (absorb · value)
      let size := if taken then value.utf8ByteSize else 0
      { vocabulary
        chunkOctets := if kind = .characterChunk then chunkOctets + size else chunkOctets
        valueOctets := if kind = .attributeValue then valueOctets + size else valueOctets }
  | .string _ _ => t
  | .name kind name =>
    match t with
    | ⟨vocabulary, chunkOctets, valueOctets⟩ =>
      { vocabulary := (vocabulary.mapNames kind (absorb · name)).2, chunkOctets, valueOctets }

/-! ## Representations -/

/-- A string that identifies something is always entered. -/
def identifying (t : Tables) (kind : StringKind) (value : String) : Representation :=
  match (t.vocabulary.strings kind).wireIndex? value with
  | some index => .indexed index
  | none => .literal value true

/-- Other strings are entered if the policy admits them. -/
def nonIdentifying (c : Codec) (t : Tables) (kind : StringKind) (value : String) :
    Representation :=
  let table := t.vocabulary.strings kind
  match table.wireIndex? value with
  | some index => .indexed index
  | none =>
    .literal value
      (!value.isEmpty && !table.isFull && c.policy.admits (.strings kind) value (t.taken kind))

/-- Content without characters or octets has no representation. -/
def represent? (c : Codec) (t : Tables) (kind : StringKind) :
    Content → Except CodecError (Option Representation)
  | .text characters =>
    .ok (if characters.isEmpty then none else some (t.nonIdentifying c kind characters))
  | .restricted id characters =>
    if characters.isEmpty then .ok none
    else
      match c.alphabets.encode id characters with
      | .ok octets => .ok (some (.packed .alphabet id octets false))
      | .error cause => .error (.alphabet cause)
  | .typed id value =>
    match c.algorithms.encode id value with
    | .ok octets =>
      .ok (if octets.isEmpty then none else some (.packed .algorithm id octets false))
    | .error cause => .error (.algorithm cause)
  | .undecoded packing id octets => .ok (some (.packed packing id octets false))

end Tables

structure Item where
  octets : Octets
  entries : List Entry

namespace Item

def ofEmission (e : Emission) (entries : List Entry) : Except CodecError Item :=
  match e.toExcept with
  | .ok octets => .ok ⟨octets, entries⟩
  | .error cause => .error (.format cause)

/-! ## The header -/

def emitTables : Option String → Emission
  | some uri =>
    .done [Mark.externalVocabulary, 0x00] ++ lengthOnSecondBit.emitString 0x00 (Utf8.encode uri)
  | none => .done []

def emitStandalone : Option Bool → Emission
  | some standalone => .done [flagBit standalone 0x01]
  | none => .done []

/-- The vocabulary named is that of the codec, whatever the header says. -/
def ofHeader (c : Codec) (t : Tables) (header : DocumentHeader) : Except CodecError Item :=
  let header := { header with externalVocabulary := c.initialUri? }
  let version? := header.version.map (t.nonIdentifying c .otherString)
  let version : Emission :=
    match version? with
    | some version => version.emitNonIdentifying c.config.characterEncoding
    | none => .done []
  ofEmission
    (.done header.preamble ++ emitTables header.externalVocabulary ++
      emitStandalone header.standalone ++ version)
    (version?.toList.map (.string .otherString))

/-! ## Names -/

def emitName : NameKind → NameRepresentation → Emission
  | .element => NameRepresentation.emitElement 0x00
  | .attribute => NameRepresentation.emitAttribute

/-- The parts of a name that are not empty are written, and the name is entered. -/
def ofNewName (t : Tables) (kind : NameKind) (name : QualifiedName)
    (localName : Representation) : Except CodecError Item :=
  let nsPrefix := if name.hasPrefix then some (t.identifying .nsPrefix name.nsPrefix) else none
  let namespaceName :=
    if name.hasNamespace then some (t.identifying .namespaceName name.namespaceName) else none
  ofEmission (emitName kind (.parts nsPrefix namespaceName localName))
    (nsPrefix.toList.map (.string .nsPrefix) ++
      namespaceName.toList.map (.string .namespaceName) ++
      [.string .localName localName, .name kind name])

def ofNameIndex (kind : NameKind) (index : Nat) : Except CodecError Item :=
  ofEmission (emitName kind (.indexed index)) []

/-- An index has to be established, and a name given by the index of its local part new. -/
def ofName (t : Tables) (kind : NameKind) : NameReference → Except CodecError Item
  | .named name =>
    match (t.vocabulary.names kind).wireIndex? name with
    | some index => ofNameIndex kind index
    | none => ofNewName t kind name (t.identifying .localName name.localName)
  | .indexed index =>
    match (t.vocabulary.names kind).get index with
    | .ok _ => ofNameIndex kind index
    | .error cause => .error (.vocabulary cause)
  | .localIndexed nsPrefix namespaceName index =>
    match t.vocabulary.localNames.get index with
    | .error cause => .error (.vocabulary cause)
    | .ok localName =>
      let name : QualifiedName := { nsPrefix, namespaceName, localName }
      if (t.vocabulary.names kind).contains name then
        .error (.vocabulary (.duplicateEntry (.names kind) name.tagText))
      else ofNewName t kind name (.indexed index)

def ofDeclaration (t : Tables) (nsPrefix namespaceName : String) : Except CodecError Item :=
  let nsPrefix := if nsPrefix.isEmpty then none else some (t.identifying .nsPrefix nsPrefix)
  let namespaceName :=
    if namespaceName.isEmpty then none else some (t.identifying .namespaceName namespaceName)
  ofEmission (NamespaceAttribute.emit ⟨nsPrefix, namespaceName⟩)
    (nsPrefix.toList.map (.string .nsPrefix) ++ namespaceName.toList.map (.string .namespaceName))

/-! ## Content -/

/-- A value without characters or octets is written as the empty string. -/
def ofValue (c : Codec) (t : Tables) (value : Content) : Except CodecError Item := do
  let r := (← t.represent? c .attributeValue value).getD (t.nonIdentifying c .attributeValue "")
  ofEmission (r.emitNonIdentifying c.config.characterEncoding) [.string .attributeValue r]

/-- Content without characters or octets is not written. -/
def ofCharacters? (c : Codec) (t : Tables) (content : Content) :
    Except CodecError (Option Item) := do
  match ← t.represent? c .characterChunk content with
  | none => return none
  | some r =>
    some <$> ofEmission (r.emitChunk c.config.characterEncoding) [.string .characterChunk r]

def ofComment (c : Codec) (t : Tables) (text : String) : Except CodecError Item :=
  let r := t.nonIdentifying c .otherString text
  ofEmission (.done [Mark.comment] ++ r.emitNonIdentifying c.config.characterEncoding)
    [.string .otherString r]

def ofInstruction (c : Codec) (t : Tables) (target data : String) : Except CodecError Item :=
  let target := t.identifying .otherNcName target
  let data := t.nonIdentifying c .otherString data
  ofEmission
    (.done [Mark.instruction] ++ target.emitIdentifying ++
      data.emitNonIdentifying c.config.characterEncoding)
    [.string .otherNcName target, .string .otherString data]

end Item

end BinaryXml
