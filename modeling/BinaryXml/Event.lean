import BinaryXml.DocumentHeader
import BinaryXml.QualifiedName
import BinaryXml.Representation
import BinaryXml.TypedValue

/-!
# Events

A document is a list of events in document order. Character content keeps the form that it has in
the document, so that a typed value is never written out as text.
-/

namespace BinaryXml

inductive Content
  | text (characters : String)
  | restricted (alphabet : UInt8) (characters : String)
  | typed (algorithm : UInt8) (value : TypedValue)
  /-- Octets of an algorithm or alphabet that the reader does not know. -/
  | undecoded (packing : Packing) (id : UInt8) (octets : Octets)
  deriving DecidableEq

namespace Content

/-- The characters of content that carries them directly. -/
def asText? : Content → Option String
  | text characters => some characters
  | restricted _ characters => some characters
  | typed _ _ => none
  | undecoded _ _ _ => none

/-- Markup knows fewer characters as white space than Unicode does. -/
def isBlankCharacter (c : Char) : Bool :=
  c = ' ' || c = '\t' || c = '\n' || c = '\r'

def isBlank (c : Content) : Bool :=
  match c.asText? with
  | some characters => characters.toList.all isBlankCharacter
  | none => false

end Content

structure Attribute where
  name : QualifiedName
  value : Content
  deriving DecidableEq

/-- The empty prefix stands for the default namespace. -/
structure NamespaceDeclaration where
  nsPrefix : String
  namespaceName : String
  deriving DecidableEq

inductive Event
  | startDocument (header : DocumentHeader)
  | startElement (name : QualifiedName) (declarations : List NamespaceDeclaration)
      (attributes : List Attribute)
  | characters (content : Content)
  | comment (text : String)
  | instruction (target data : String)
  | endElement
  | endDocument
  deriving DecidableEq

end BinaryXml
