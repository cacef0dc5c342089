import BinaryXml.Octets

/-!
# Marks

Single octets that stand for themselves in a document.
-/

namespace BinaryXml.Mark

/-- Ends an element, a list of declarations or attributes, or the document. -/
def terminator : UInt8 := 0xF0

/-- Ends two things at once. -/
def doubleTerminator : UInt8 := 0xFF

def instruction : UInt8 := 0xE1

def comment : UInt8 := 0xE2

/-- Stands in the place of the name of an element that has namespace declarations. -/
def declarations : UInt8 := 0x38

/-- The bit of the first octet of an element that announces attributes. -/
def attributes : UInt8 := 0x40

/-- Begins the component that names an external vocabulary. -/
def externalVocabulary : UInt8 := 0x10

end BinaryXml.Mark
