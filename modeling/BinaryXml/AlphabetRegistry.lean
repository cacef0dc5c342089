import BinaryXml.Alphabet

/-!
# The alphabets of a codec

Two alphabets are built in; others are registered, each under an identifier of its own.
-/

namespace BinaryXml

def numericAlphabet : Alphabet :=
  Alphabet.ofDistinct
    ['0', '1', '2', '3', '4', '5', '6', '7', '8', '9', '-', '+', '.', 'E', ' ']
    (by decide) (by decide)

def dateTimeAlphabet : Alphabet :=
  Alphabet.ofDistinct
    ['0', '1', '2', '3', '4', '5', '6', '7', '8', '9', '-', ':', 'T', 'Z', ' ']
    (by decide) (by decide)

structure AlphabetRegistry where
  registered : List (UInt8 × Alphabet) := []

namespace AlphabetRegistry

def find? (r : AlphabetRegistry) (id : UInt8) : Option Alphabet :=
  if id = 0 then some numericAlphabet
  else if id = 1 then some dateTimeAlphabet
  else r.registered.lookup id

def get (r : AlphabetRegistry) (id : UInt8) : Except AlphabetError Alphabet :=
  match r.find? id with
  | some alphabet => .ok alphabet
  | none => .error (.unknownAlphabet id)

/-- The identifier is looked at before the characters. -/
def register (r : AlphabetRegistry) (id : UInt8) (characters : String) :
    Except AlphabetError AlphabetRegistry :=
  if id = 0 ∨ id = 1 then .error (.reservedIdentifier id)
  else if (r.registered.lookup id).isSome then .error (.duplicateRegistration id)
  else do
    let alphabet ← Alphabet.ofString characters
    return ⟨(id, alphabet) :: r.registered⟩

def encode (r : AlphabetRegistry) (id : UInt8) (text : String) : Except AlphabetError Octets := do
  (← r.get id).encode id text

def decode (r : AlphabetRegistry) (id : UInt8) (octets : Octets) : Except AlphabetError String := do
  (← r.get id).decode id octets

end AlphabetRegistry

end BinaryXml
