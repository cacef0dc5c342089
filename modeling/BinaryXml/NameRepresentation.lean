import BinaryXml.Representation

/-!
# Representations of names

A qualified name is the index of a table entry, or its parts in order: prefix, namespace name and
local name, of which the first two may be missing. A prefix never stands without a namespace name.
Namespace attributes are written in the same way, without a local name.
-/

namespace BinaryXml

inductive NameRepresentation
  | indexed (index : Nat)
  | parts (nsPrefix namespaceName : Option Representation) (localName : Representation)
  deriving DecidableEq

namespace NameRepresentation

/-- The two low bits that tell which optional parts follow. -/
def partFlags (nsPrefix namespaceName : Option Representation) : UInt8 :=
  flagBit nsPrefix.isSome 0x02 ||| flagBit namespaceName.isSome 0x01

def emitPart : Option Representation → Emission
  | some part => part.emitIdentifying
  | none => .done []

/-- Writes `fixed` with the flags of the parts, and the parts present. -/
def emitParts (fixed : UInt8) (nsPrefix namespaceName localName : Option Representation) :
    Emission :=
  if nsPrefix.isSome && namespaceName.isNone then .failed .prefixWithoutNamespace
  else
    .done [fixed ||| partFlags nsPrefix namespaceName] ++ emitPart nsPrefix ++
      emitPart namespaceName ++ emitPart localName

def readPart (isPresent : Bool) : Parser (Option Representation) :=
  if isPresent then some <$> Representation.readIdentifying else pure none

/-- Reads the optional parts that the low bits of `first` announce. -/
def readOptionalParts (first : UInt8) : Parser (Option Representation × Option Representation) := do
  let hasPrefix := first.toNat / 2 % 2 == 1
  let hasNamespace := first.toNat % 2 == 1
  if hasPrefix && !hasNamespace then throw .prefixWithoutNamespace
  else
    let nsPrefix ← readPart hasPrefix
    let namespaceName ← readPart hasNamespace
    return (nsPrefix, namespaceName)

theorem consumes_readPart (isPresent : Bool) : Consumes (readPart isPresent) :=
  consumes_ite (consumes_map _ Representation.consumes_readIdentifying) (consumes_pure _)

theorem consumes_readOptionalParts (first : UInt8) : Consumes (readOptionalParts first) :=
  consumes_ite (consumes_throw _) <|
    consumes_bind (consumes_readPart _) fun _ =>
      consumes_bind (consumes_readPart _) fun _ => consumes_pure _

def readParts (first : UInt8) : Parser NameRepresentation := do
  let (nsPrefix, namespaceName) ← readOptionalParts first
  let localName ← Representation.readIdentifying
  return parts nsPrefix namespaceName localName

theorem consumes_readParts (first : UInt8) : Consumes (readParts first) :=
  consumes_bind (consumes_readOptionalParts _) fun _ =>
    consumes_bind Representation.consumes_readIdentifying fun _ => consumes_pure _

/-! ## Element names start on the third bit -/

def emitElement (fixed : UInt8) : NameRepresentation → Emission
  | indexed index => indexOnThirdBit.emitIndex fixed index
  | parts nsPrefix namespaceName localName =>
    emitParts (fixed ||| 0x3C) nsPrefix namespaceName (some localName)

def readElement (first : UInt8) : Parser NameRepresentation := do
  if (indexOnThirdBit.rungOfMark? first).isSome then
    let index ← indexOnThirdBit.readIndex first
    return indexed index
  else if first.toNat / 4 % 16 = 15 then readParts first
  else Parser.unexpected first "element name"

theorem consumes_readElement (first : UInt8) : Consumes (readElement first) :=
  consumes_ite (consumes_bind (Ladder.consumes_readIndex _ _) fun _ => consumes_pure _)
    (consumes_ite (consumes_readParts _) (Parser.consumes_unexpected _ _))

/-! ## Attribute names start on the second bit -/

def emitAttribute : NameRepresentation → Emission
  | indexed index => indexOnSecondBit.emitIndex 0x00 index
  | parts nsPrefix namespaceName localName =>
    emitParts 0x78 nsPrefix namespaceName (some localName)

def readAttribute (first : UInt8) : Parser NameRepresentation := do
  if first.toNat / 4 = 0x78 / 4 then readParts first
  else if first.toNat < 0x80 then
    let index ← indexOnSecondBit.readIndex first
    return indexed index
  else Parser.unexpected first "attribute name"

theorem consumes_readAttribute (first : UInt8) : Consumes (readAttribute first) :=
  consumes_ite (consumes_readParts _) <|
    consumes_ite (consumes_bind (Ladder.consumes_readIndex _ _) fun _ => consumes_pure _)
      (Parser.consumes_unexpected _ _)

end NameRepresentation

/-! ## Namespace attributes -/

/-- Without a namespace name, a declaration takes the default namespace back. -/
structure NamespaceAttribute where
  nsPrefix : Option Representation
  namespaceName : Option Representation
  deriving DecidableEq

namespace NamespaceAttribute

def emit (a : NamespaceAttribute) : Emission :=
  NameRepresentation.emitParts 0xCC a.nsPrefix a.namespaceName none

def read (first : UInt8) : Parser NamespaceAttribute := do
  if first.toNat / 4 != 0xCC / 4 then Parser.unexpected first "namespace attribute"
  else
    let (nsPrefix, namespaceName) ← NameRepresentation.readOptionalParts first
    return ⟨nsPrefix, namespaceName⟩

theorem consumes_read (first : UInt8) : Consumes (read first) :=
  consumes_ite (Parser.consumes_unexpected _ _)
    (consumes_bind (NameRepresentation.consumes_readOptionalParts _) fun _ => consumes_pure _)

end NamespaceAttribute

end BinaryXml
