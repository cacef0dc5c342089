import BinaryXml.Input
import BinaryXml.Utf16
import BinaryXml.Utf8

/-!
# Character encodings of literal strings
-/

namespace BinaryXml

inductive CharacterEncoding
  | utf8
  | utf16
  deriving DecidableEq

namespace CharacterEncoding

def name : CharacterEncoding → String
  | utf8 => "utf-8"
  | utf16 => "utf-16"

/-- The number that stands for the encoding in front of a literal string. -/
def discriminant : CharacterEncoding → Nat
  | utf8 => 0
  | utf16 => 1

def encode : CharacterEncoding → String → Octets
  | utf8 => Utf8.encode
  | utf16 => Utf16.encode

def decode (encoding : CharacterEncoding) (octets : Octets) : Except FormatError String :=
  match encoding with
  | utf8 => (Utf8.decode octets).mapError fun f => .invalidCharacters "utf-8" f.message
  | utf16 => (Utf16.decode octets).mapError fun f => .invalidCharacters "utf-16" f.message

/-- Names are read with or without the hyphen; `none` stands for an unknown name. -/
def ofName? (name : String) : Option CharacterEncoding :=
  if name = "utf-8" || name = "utf8" then some utf8
  else if name = "utf-16" || name = "utf16" then some utf16
  else none

end CharacterEncoding

/-- A literal of known length, decoded after it was consumed. -/
def Parser.text (encoding : CharacterEncoding) (octets : Octets) : Parser String :=
  Parser.ofExcept (encoding.decode octets)

theorem Parser.consumes_text (encoding : CharacterEncoding) (octets : Octets) :
    Consumes (Parser.text encoding octets) :=
  Parser.consumes_ofExcept _

end BinaryXml
