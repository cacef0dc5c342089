import BinaryXml.Hexadecimal

/-!
# Violations of the document format

The causes for which octets are refused, and for which a value has no octets.
-/

namespace BinaryXml

inductive FormatError
  | unexpectedEnd (offset : Nat)
  | unknownIdentification (found : Octets)
  | unexpectedOctet (octet : UInt8) (offset : Nat) (context : String)
  | unsupportedComponents (flags : UInt8)
  | unknownExternalVocabulary (uri : String)
  | invalidCharacters (encoding reason : String)
  | lengthOutOfRange (length : Nat)
  | indexOutOfRange (index : Nat)
  | prefixWithoutNamespace
  | emptyValue
  | unsupportedRepresentation (context representation : String)
  | trailingOctets (count : Nat)

/-- The octets that open every document. -/
def identification : Octets := [0xE0, 0x00, 0x00, 0x01]

namespace FormatError

def octetText (octet : UInt8) : String :=
  "0x" ++ Hexadecimal.lower [octet]

def octetListText (octets : Octets) : String :=
  "[" ++ String.intercalate ", " (octets.map fun octet => Hexadecimal.upper [octet]) ++ "]"

def message : FormatError → String
  | unexpectedEnd offset => s!"Unexpected end of input at offset {offset}"
  | unknownIdentification found =>
    "Invalid identification: expected " ++ octetListText identification ++ ", got " ++
      octetListText found
  | unexpectedOctet octet offset context =>
    s!"Unexpected octet {octetText octet} at offset {offset} while reading {context}"
  | unsupportedComponents flags => "Unsupported document component flags: " ++ octetText flags
  | unknownExternalVocabulary uri => "Unknown external vocabulary: " ++ uri
  | invalidCharacters encoding reason => s!"Invalid {encoding} content: {reason}"
  | lengthOutOfRange length => s!"Octet string length {length} is outside the encodable range"
  | indexOutOfRange index => s!"Index {index} is outside the encodable range"
  | prefixWithoutNamespace => "Literal qualified name has a prefix but no namespace name"
  | emptyValue => "Empty value cannot be encoded as a non-empty octet string"
  | unsupportedRepresentation context representation =>
    s!"{context} cannot be written as {representation}"
  | trailingOctets count => s!"{count} trailing octets after the document terminator"

end FormatError

end BinaryXml
