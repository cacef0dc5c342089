import BinaryXml.NamespaceScopes
import BinaryXml.Table

/-!
# Vocabularies

The ten tables of a document. Without a shared vocabulary, two of them have the prefix `xml` and
its namespace as their first entries.
-/

namespace BinaryXml

structure Vocabulary where
  prefixes : Table (.strings .nsPrefix) String
  namespaceNames : Table (.strings .namespaceName) String
  localNames : Table (.strings .localName) String
  otherNcNames : Table (.strings .otherNcName) String
  otherUris : Table (.strings .otherUri) String
  attributeValues : Table (.strings .attributeValue) String
  characterChunks : Table (.strings .characterChunk) String
  otherStrings : Table (.strings .otherString) String
  elementNames : Table (.names .element) QualifiedName
  attributeNames : Table (.names .attribute) QualifiedName

namespace Vocabulary

def emptyTable (kind : TableKind) (α : Type) [DecidableEq α] [Hashable α] : Table kind α where
  base := Roster.empty

def singleEntry (kind : TableKind) (entry : String) : Table kind String where
  base := Roster.ofNodup [entry] (by simp)

def standard : Vocabulary where
  prefixes := singleEntry _ "xml"
  namespaceNames := singleEntry _ xmlNamespace
  localNames := emptyTable _ _
  otherNcNames := emptyTable _ _
  otherUris := emptyTable _ _
  attributeValues := emptyTable _ _
  characterChunks := emptyTable _ _
  otherStrings := emptyTable _ _
  elementNames := emptyTable _ _
  attributeNames := emptyTable _ _

def strings (v : Vocabulary) : (kind : StringKind) → Table (.strings kind) String
  | .nsPrefix => v.prefixes
  | .namespaceName => v.namespaceNames
  | .localName => v.localNames
  | .otherNcName => v.otherNcNames
  | .otherUri => v.otherUris
  | .attributeValue => v.attributeValues
  | .characterChunk => v.characterChunks
  | .otherString => v.otherStrings

def names (v : Vocabulary) : (kind : NameKind) → Table (.names kind) QualifiedName
  | .element => v.elementNames
  | .attribute => v.attributeNames

variable {ε β : Type}

/-- Replaces one table of strings by what `f` makes of it. -/
def updateStrings (v : Vocabulary) (kind : StringKind)
    (f : Table (.strings kind) String → Except ε (β × Table (.strings kind) String)) :
    Except ε (β × Vocabulary) :=
  match v, kind with
  | ⟨p, n, l, c, u, a, t, s, en, an⟩, .nsPrefix =>
    (f p).map fun (b, p) => (b, ⟨p, n, l, c, u, a, t, s, en, an⟩)
  | ⟨p, n, l, c, u, a, t, s, en, an⟩, .namespaceName =>
    (f n).map fun (b, n) => (b, ⟨p, n, l, c, u, a, t, s, en, an⟩)
  | ⟨p, n, l, c, u, a, t, s, en, an⟩, .localName =>
    (f l).map fun (b, l) => (b, ⟨p, n, l, c, u, a, t, s, en, an⟩)
  | ⟨p, n, l, c, u, a, t, s, en, an⟩, .otherNcName =>
    (f c).map fun (b, c) => (b, ⟨p, n, l, c, u, a, t, s, en, an⟩)
  | ⟨p, n, l, c, u, a, t, s, en, an⟩, .otherUri =>
    (f u).map fun (b, u) => (b, ⟨p, n, l, c, u, a, t, s, en, an⟩)
  | ⟨p, n, l, c, u, a, t, s, en, an⟩, .attributeValue =>
    (f a).map fun (b, a) => (b, ⟨p, n, l, c, u, a, t, s, en, an⟩)
  | ⟨p, n, l, c, u, a, t, s, en, an⟩, .characterChunk =>
    (f t).map fun (b, t) => (b, ⟨p, n, l, c, u, a, t, s, en, an⟩)
  | ⟨p, n, l, c, u, a, t, s, en, an⟩, .otherString =>
    (f s).map fun (b, s) => (b, ⟨p, n, l, c, u, a, t, s, en, an⟩)

/-- Replaces one table of names by what `f` makes of it. -/
def updateNames (v : Vocabulary) (kind : NameKind)
    (f : Table (.names kind) QualifiedName → Except ε (β × Table (.names kind) QualifiedName)) :
    Except ε (β × Vocabulary) :=
  match v, kind with
  | ⟨p, n, l, c, u, a, t, s, en, an⟩, .element =>
    (f en).map fun (b, en) => (b, ⟨p, n, l, c, u, a, t, s, en, an⟩)
  | ⟨p, n, l, c, u, a, t, s, en, an⟩, .attribute =>
    (f an).map fun (b, an) => (b, ⟨p, n, l, c, u, a, t, s, en, an⟩)

def mapStrings (v : Vocabulary) (kind : StringKind)
    (f : Table (.strings kind) String → β × Table (.strings kind) String) : β × Vocabulary :=
  match v.updateStrings kind fun t => (.ok (f t) : Except Empty _) with
  | .ok r => r

def mapNames (v : Vocabulary) (kind : NameKind)
    (f : Table (.names kind) QualifiedName → β × Table (.names kind) QualifiedName) :
    β × Vocabulary :=
  match v.updateNames kind fun t => (.ok (f t) : Except Empty _) with
  | .ok r => r

/-- Every table goes back to its base. -/
def reset (v : Vocabulary) : Vocabulary where
  prefixes := v.prefixes.clear
  namespaceNames := v.namespaceNames.clear
  localNames := v.localNames.clear
  otherNcNames := v.otherNcNames.clear
  otherUris := v.otherUris.clear
  attributeValues := v.attributeValues.clear
  characterChunks := v.characterChunks.clear
  otherStrings := v.otherStrings.clear
  elementNames := v.elementNames.clear
  attributeNames := v.attributeNames.clear

/-- The sizes of the ten tables in their order. -/
def sizes (v : Vocabulary) : List Nat :=
  [v.prefixes.size, v.namespaceNames.size, v.localNames.size, v.otherNcNames.size,
    v.otherUris.size, v.attributeValues.size, v.characterChunks.size, v.otherStrings.size,
    v.elementNames.size, v.attributeNames.size]

end Vocabulary

end BinaryXml
