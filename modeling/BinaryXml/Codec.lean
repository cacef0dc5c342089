import BinaryXml.AlgorithmRegistry
import BinaryXml.AlphabetRegistry
import BinaryXml.CodecError
import BinaryXml.IndexingPolicy
import BinaryXml.SharedVocabulary

/-!
# Codecs

A codec holds what documents written and read together have to agree on: settings, registered
algorithms and alphabets, the vocabulary that written documents start from, and the vocabularies
that a document may name by their URI. A vocabulary that documents start from can be named.
-/

namespace BinaryXml

structure Codec where
  config : Config := {}
  algorithms : AlgorithmRegistry := {}
  alphabets : AlphabetRegistry := {}
  initial? : Option SharedVocabulary := none
  /-- Vocabularies by URI, the latest first. -/
  externals : List (String × SharedVocabulary) := []
  policy : IndexingPolicy := .byLength config
  initial_named (v : SharedVocabulary) (_ : initial? = some v) :
    ∃ uri, v.externalUri = some uri ∧ externals.lookup uri = some v := by simp

namespace Codec

def external (c : Codec) (uri : String) : Except FormatError SharedVocabulary :=
  match c.externals.lookup uri with
  | some shared => .ok shared
  | none => .error (.unknownExternalVocabulary uri)

/-- The URI that written documents name. -/
def initialUri? (c : Codec) : Option String :=
  c.initial?.bind (·.externalUri)

/-- The tables of a new document. -/
def startingVocabulary (c : Codec) : Vocabulary :=
  Vocabulary.forDocument c.initial?

end Codec

/-- A codec under construction. -/
structure CodecBuilder where
  config : Config := {}
  algorithms : AlgorithmRegistry := {}
  alphabets : AlphabetRegistry := {}
  initial? : Option SharedVocabulary := none
  externals : List (String × SharedVocabulary) := []
  policy? : Option IndexingPolicy := none

namespace CodecBuilder

inductive Step
  | configure (config : Config)
  | registerAlgorithm (id : UInt8) (algorithm : Algorithm)
  | registerAlphabet (id : UInt8) (characters : String)
  | startFrom (shared : SharedVocabulary)
  | provide (shared : SharedVocabulary)
  | indexBy (policy : IndexingPolicy)

/-- Registrations are checked at once; what depends on later steps waits for `build`. -/
def apply (b : CodecBuilder) : Step → Except CodecError CodecBuilder
  | .configure config => .ok { b with config }
  | .registerAlgorithm id algorithm =>
    match b.algorithms.register id algorithm with
    | .ok algorithms => .ok { b with algorithms }
    | .error cause => .error (.algorithm cause)
  | .registerAlphabet id characters =>
    match b.alphabets.register id characters with
    | .ok alphabets => .ok { b with alphabets }
    | .error cause => .error (.alphabet cause)
  | .startFrom shared => .ok { b with initial? := some shared }
  | .provide shared =>
    match shared.externalUri with
    | some uri => .ok { b with externals := (uri, shared) :: b.externals }
    | none => .error (.config (.missingUri "external"))
  | .indexBy policy => .ok { b with policy? := some policy }

/-- The vocabulary that documents start from takes its URI over from any other. -/
def build (b : CodecBuilder) : Except CodecError Codec :=
  match b.config.validate with
  | .error cause => .error (.config cause)
  | .ok () =>
    let policy := b.policy?.getD (.byLength b.config)
    match b.initial? with
    | none =>
      .ok {
        config := b.config
        algorithms := b.algorithms
        alphabets := b.alphabets
        externals := b.externals
        policy }
    | some shared =>
      match named : shared.externalUri with
      | none => .error (.config (.missingUri "initial"))
      | some uri =>
        .ok {
          config := b.config
          algorithms := b.algorithms
          alphabets := b.alphabets
          initial? := some shared
          externals := (uri, shared) :: b.externals
          policy
          initial_named := by
            intro v hv
            cases hv
            exact ⟨uri, named, List.lookup_cons_self⟩ }

def ofSteps (steps : List Step) : Except CodecError CodecBuilder :=
  steps.foldlM apply {}

end CodecBuilder

end BinaryXml
