import BinaryXml.Config

/-!
# Indexing policies

A policy decides which new strings a document enters into its tables. It shapes the document, but
the reader does as it is told and needs no policy.
-/

namespace BinaryXml

structure IndexingPolicy where
  /-- Answers for a string, given how many octets of text its table has taken in so far. -/
  admits : TableKind → String → Nat → Bool

namespace IndexingPolicy

def always : IndexingPolicy where
  admits _ _ _ := true

def never : IndexingPolicy where
  admits _ _ _ := false

/-- Takes in attribute values and chunks of suitable length, chunks up to a total size. -/
def byLength (c : Config) : IndexingPolicy where
  admits kind text taken :=
    match kind with
    | .strings .attributeValue => c.attributeValues.contains text.length
    | .strings .characterChunk =>
      c.characterChunks.contains text.length && taken + text.utf8ByteSize ≤ c.chunkMemoryLimit
    | _ => false

end IndexingPolicy

end BinaryXml
