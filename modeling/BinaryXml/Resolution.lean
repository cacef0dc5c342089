import BinaryXml.Codec
import BinaryXml.Event
import BinaryXml.NameRepresentation

/-!
# What representations stand for

A string in a document stands for itself, for a table entry, or for what its octets unpack to.
Resolving it enters it into its table if the document asks for that, so that both sides go on with
the same tables.
-/

namespace BinaryXml

namespace Table

variable {kind : TableKind}

/-- A literal that identifies something is always entered. -/
def resolveIdentifying (t : Table kind String) :
    Representation → Except CodecError (String × Table kind String)
  | .literal value _ =>
    match t.enter value with
    | .ok t => .ok (value, t)
    | .error cause => .error (.vocabulary cause)
  | .indexed index =>
    match t.get index with
    | .ok value => .ok (value, t)
    | .error cause => .error (.vocabulary cause)
  | .packed _ _ _ _ =>
    .error (.format (.unsupportedRepresentation "identifying string" "encoded octets"))

/-- Packed octets that cannot be unpacked are passed on if the codec allows it. What they would
enter into a table is unknown, so they may not ask for it. -/
def resolveUnknown (c : Codec) (t : Table kind String) (packing : Packing) (id : UInt8)
    (octets : Octets) (add : Bool) (cause : CodecError) :
    Except CodecError (Content × Table kind String) :=
  if c.config.unknownPacking ≠ .keep then .error cause
  else if add then
    .error (.format (.unsupportedRepresentation "indexed content" "opaque octets"))
  else .ok (.undecoded packing id octets, t)

/-- Content is entered on demand, a packed value by its characters. -/
def resolveContent (c : Codec) (t : Table kind String) :
    Representation → Except CodecError (Content × Table kind String)
  | .literal value add => entered (.text value) add fun _ => .ok value
  | .indexed index =>
    match t.get index with
    | .ok value => .ok (.text value, t)
    | .error cause => .error (.vocabulary cause)
  | .packed .algorithm id octets add =>
    match c.algorithms.find? id with
    | none => t.resolveUnknown c .algorithm id octets add (.algorithm (.unknownAlgorithm id))
    | some algorithm =>
      match algorithm.decode octets with
      | .ok value => entered (.typed id value) add fun _ => algorithm.toText value
      | .error cause => .error (.algorithm cause)
  | .packed .alphabet id octets add =>
    match c.alphabets.find? id with
    | none => t.resolveUnknown c .alphabet id octets add (.alphabet (.unknownAlphabet id))
    | some alphabet =>
      match alphabet.decode id octets with
      | .ok text => entered (.restricted id text) add fun _ => .ok text
      | .error cause => .error (.alphabet cause)
where
  /-- Without a demand, or with a full table, the characters are not asked for. -/
  entered (content : Content) (add : Bool) (characters : Unit → Except AlgorithmError String) :
      Except CodecError (Content × Table kind String) :=
    if add && !t.isFull then
      match characters () with
      | .error cause => .error (.algorithm cause)
      | .ok characters =>
        match t.add characters with
        | .ok (_, t) => .ok (content, t)
        | .error cause => .error (.vocabulary cause)
    else .ok (content, t)

end Table

/-- The text of content where only text is allowed. -/
def Content.toText (c : Codec) : Content → Except CodecError String
  | .text characters => .ok characters
  | .restricted _ characters => .ok characters
  | .typed id value =>
    match c.algorithms.get id with
    | .error cause => .error (.algorithm cause)
    | .ok algorithm => (algorithm.toText value).mapError .algorithm
  | .undecoded .algorithm id _ => .error (.algorithm (.unknownAlgorithm id))
  | .undecoded .alphabet id _ => .error (.alphabet (.unknownAlphabet id))

namespace Vocabulary

/-- A part that is missing is empty. -/
def resolvePart (v : Vocabulary) (kind : StringKind) :
    Option Representation → Except CodecError (String × Vocabulary)
  | none => .ok ("", v)
  | some r => v.updateStrings kind (·.resolveIdentifying r)

def resolveContent (c : Codec) (v : Vocabulary) (kind : StringKind) (r : Representation) :
    Except CodecError (Content × Vocabulary) :=
  v.updateStrings kind (·.resolveContent c r)

def resolveText (c : Codec) (v : Vocabulary) (kind : StringKind) (r : Representation) :
    Except CodecError (String × Vocabulary) := do
  let (content, v) ← v.resolveContent c kind r
  let text ← content.toText c
  return (text, v)

def resolveName (v : Vocabulary) (kind : NameKind) :
    NameRepresentation → Except CodecError (QualifiedName × Vocabulary)
  | .indexed index =>
    match (v.names kind).get index with
    | .ok name => .ok (name, v)
    | .error cause => .error (.vocabulary cause)
  | .parts nsPrefix namespaceName localName => do
    let (nsPrefix, v) ← v.resolvePart .nsPrefix nsPrefix
    let (namespaceName, v) ← v.resolvePart .namespaceName namespaceName
    let (localName, v) ← v.resolvePart .localName (some localName)
    let name : QualifiedName := { nsPrefix, namespaceName, localName }
    v.updateNames kind fun t =>
      match t.enter name with
      | .ok t => .ok (name, t)
      | .error cause => .error (.vocabulary cause)

def resolveDeclaration (v : Vocabulary) (a : NamespaceAttribute) :
    Except CodecError (NamespaceDeclaration × Vocabulary) := do
  let (nsPrefix, v) ← v.resolvePart .nsPrefix a.nsPrefix
  let (namespaceName, v) ← v.resolvePart .namespaceName a.namespaceName
  return ({ nsPrefix, namespaceName }, v)

end Vocabulary

end BinaryXml
