import BinaryXml.Emission
import BinaryXml.Input

/-!
# Document headers

Every document opens with its identification and one octet that tells which of three optional
components follow.
-/

namespace BinaryXml

structure DocumentHeader where
  externalVocabulary : Option String := none
  standalone : Option Bool := none
  version : Option String := none
  deriving DecidableEq

/-- Which components follow the preamble of a document. -/
structure Components where
  vocabulary : Bool
  standalone : Bool
  version : Bool
  deriving DecidableEq

namespace Components

def flags (c : Components) : UInt8 :=
  flagBit c.vocabulary 0x20 ||| flagBit c.standalone 0x02 ||| flagBit c.version 0x01

/-- No bit but those of the three components may be set. -/
def ofFlags? (flags : UInt8) : Option Components :=
  if flags &&& ~~~0x23 = 0 then
    some ⟨flags &&& 0x20 ≠ 0, flags &&& 0x02 ≠ 0, flags &&& 0x01 ≠ 0⟩
  else none

def read : Parser Components := do
  let found ← Parser.slice identification.length
  if found ≠ identification then throw (.unknownIdentification found)
  else
    let flags ← Parser.octet
    match ofFlags? flags with
    | some components => return components
    | none => throw (.unsupportedComponents flags)

end Components

namespace DocumentHeader

def components (h : DocumentHeader) : Components :=
  ⟨h.externalVocabulary.isSome, h.standalone.isSome, h.version.isSome⟩

def preamble (h : DocumentHeader) : Octets :=
  identification ++ [h.components.flags]

end DocumentHeader

end BinaryXml
