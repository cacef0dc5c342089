import BinaryXml.Vocabulary

/-!
# Vocabularies shared between documents

A definition lists the entries of a vocabulary; built, they are the bases of the ten tables. The
prefix `xml` and its namespace come first in every one.
-/

namespace BinaryXml

structure VocabularyDefinition where
  externalUri : Option String := none
  prefixes : List String := []
  namespaceNames : List String := []
  localNames : List String := []
  otherNcNames : List String := []
  otherUris : List String := []
  attributeValues : List String := []
  characterChunks : List String := []
  otherStrings : List String := []
  elementNames : List QualifiedName := []
  attributeNames : List QualifiedName := []
  deriving DecidableEq

structure SharedVocabulary where
  externalUri : Option String
  vocabulary : Vocabulary
  /-- Documents start from tables to which nothing was added. -/
  reset_eq : vocabulary.reset = vocabulary

namespace SharedVocabulary

/-- Entries of a table have to be distinct; the tables are built in their order. -/
def build (d : VocabularyDefinition) : Except VocabularyError SharedVocabulary := do
  let prefixes ← Roster.base (.strings .nsPrefix) ("xml" :: d.prefixes)
  let namespaceNames ← Roster.base (.strings .namespaceName) (xmlNamespace :: d.namespaceNames)
  let localNames ← Roster.base (.strings .localName) d.localNames
  let otherNcNames ← Roster.base (.strings .otherNcName) d.otherNcNames
  let otherUris ← Roster.base (.strings .otherUri) d.otherUris
  let attributeValues ← Roster.base (.strings .attributeValue) d.attributeValues
  let characterChunks ← Roster.base (.strings .characterChunk) d.characterChunks
  let otherStrings ← Roster.base (.strings .otherString) d.otherStrings
  let elementNames ← Roster.base (.names .element) d.elementNames
  let attributeNames ← Roster.base (.names .attribute) d.attributeNames
  return {
    externalUri := d.externalUri
    vocabulary := {
      prefixes := { base := prefixes }
      namespaceNames := { base := namespaceNames }
      localNames := { base := localNames }
      otherNcNames := { base := otherNcNames }
      otherUris := { base := otherUris }
      attributeValues := { base := attributeValues }
      characterChunks := { base := characterChunks }
      otherStrings := { base := otherStrings }
      elementNames := { base := elementNames }
      attributeNames := { base := attributeNames } }
    reset_eq := rfl }

def elementCount (s : SharedVocabulary) : Nat := s.vocabulary.elementNames.initialSize

def attributeCount (s : SharedVocabulary) : Nat := s.vocabulary.attributeNames.initialSize

end SharedVocabulary

/-- The tables that a document starts from. -/
def Vocabulary.forDocument : Option SharedVocabulary → Vocabulary
  | some shared => shared.vocabulary
  | none => standard

end BinaryXml
