import BinaryXml.QualifiedName

/-!
# Kinds of vocabulary tables

Eight tables hold strings of different roles, and two hold the names of elements and attributes.
-/

namespace BinaryXml

inductive StringKind
  | nsPrefix
  | namespaceName
  | localName
  | otherNcName
  | otherUri
  | attributeValue
  | characterChunk
  | otherString
  deriving DecidableEq

inductive NameKind
  | element
  | attribute
  deriving DecidableEq

inductive TableKind
  | strings (kind : StringKind)
  | names (kind : NameKind)
  deriving DecidableEq

/-- All kinds, in the order of the tables. -/
def TableKind.all : List TableKind :=
  [strings .nsPrefix, strings .namespaceName, strings .localName, strings .otherNcName,
    strings .otherUri, strings .attributeValue, strings .characterChunk, strings .otherString,
    names .element, names .attribute]

def StringKind.name : StringKind → String
  | nsPrefix => "prefix"
  | namespaceName => "namespace-name"
  | localName => "local-name"
  | otherNcName => "other-ncname"
  | otherUri => "other-uri"
  | attributeValue => "attribute-value"
  | characterChunk => "content-character-chunk"
  | otherString => "other-string"

def NameKind.name : NameKind → String
  | .element => "element-name"
  | .attribute => "attribute-name"

def TableKind.name : TableKind → String
  | strings kind => kind.name
  | names kind => kind.name

def TableKind.ofName? (name : String) : Option TableKind :=
  all.find? fun kind => kind.name = name

inductive VocabularyError
  | forwardReference (table : TableKind) (index : Nat)
  | outOfRange (table : TableKind) (index size : Nat)
  | duplicateEntry (table : TableKind) (shown : String)

def VocabularyError.message : VocabularyError → String
  | forwardReference table index =>
    s!"{table.name} index {index} refers to an entry that is not yet established"
  | outOfRange table index size =>
    s!"{table.name} index {index} is out of range for a table of {size} entries"
  | duplicateEntry table shown => s!"{table.name} table already contains {shown}"

/-- How an entry is shown in a message. -/
class Shown (α : Type) where
  shown : α → String

instance : Shown String := ⟨QuotedText.quoteText⟩

instance : Shown QualifiedName := ⟨QualifiedName.quoted⟩

end BinaryXml
