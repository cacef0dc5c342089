import BinaryXml.Octets
import BinaryXml.QuotedText
import BinaryXml.Roster

/-!
# Restricted alphabets

Text over a small set of characters is packed with as many bits for each character as its number,
counted from one, can need. The unused bits of the last octet are zero, and a number zero among
packed bits ends the text.
-/

namespace BinaryXml

-- Powers are those of `Nat` alone, whatever algebra is in scope.
attribute [local instance (high)] instPowNat

inductive AlphabetError
  | unknownAlphabet (id : UInt8)
  | reservedIdentifier (id : UInt8)
  | duplicateRegistration (id : UInt8)
  | duplicateCharacter (character : Char)
  | tooFewCharacters
  | characterNotInAlphabet (alphabet : UInt8) (character : Char)
  | invalidCode (alphabet : UInt8) (code : Nat)

def AlphabetError.message : AlphabetError → String
  | unknownAlphabet id => s!"Unknown restricted alphabet: {id}"
  | reservedIdentifier id =>
    s!"Restricted alphabet identifier {id} collides with a built-in alphabet"
  | duplicateRegistration id => s!"Restricted alphabet identifier {id} is already registered"
  | duplicateCharacter character =>
    s!"Restricted alphabet contains {QuotedText.quoteChar character} more than once"
  | tooFewCharacters => "Restricted alphabet must contain at least two characters"
  | characterNotInAlphabet alphabet character =>
    s!"Character {QuotedText.quoteChar character} is not in restricted alphabet {alphabet}"
  | invalidCode alphabet code => s!"Code {code} is outside restricted alphabet {alphabet}"

/-- Characters are looked up by their code points. -/
instance codePointHash : Hashable Char := ⟨fun c => hash c.val⟩

structure Alphabet where
  characters : Roster Char
  two_le_size : 2 ≤ characters.size

namespace Alphabet

def ofDistinct (cs : List Char) (distinct : cs.Nodup) (long : 2 ≤ cs.length) : Alphabet where
  characters := Roster.ofNodup cs distinct
  two_le_size := by
    have : (Roster.ofNodup cs distinct).toList.length = cs.length := by rw [Roster.toList_ofNodup]
    simp only [Roster.toList, Array.length_toList] at this
    simpa only [Roster.size, this] using long

/-- The shortage of characters is reported before a repeated one. -/
def ofString (text : String) : Except AlphabetError Alphabet :=
  if short : text.toList.length < 2 then .error .tooFewCharacters
  else
    match h : Roster.ofList text.toList with
    | .error c => .error (.duplicateCharacter c)
    | .ok characters => .ok ⟨characters, by
        have := Roster.toList_of_ofList h
        have : characters.toList.length = text.toList.length := by rw [this]
        simp only [Roster.toList, Array.length_toList] at this
        simp only [Roster.size, this]
        omega⟩

def size (a : Alphabet) : Nat := a.characters.size

def toString (a : Alphabet) : String := String.ofList a.characters.toList

def contains (a : Alphabet) (c : Char) : Bool := (a.characters.indexOf? c).isSome

/-- The least number of bits that holds every number from zero to the size. -/
def width (a : Alphabet) : Nat := Nat.log2 a.size + 1

/-- The number of a character, counted from one. -/
def code? (a : Alphabet) (c : Char) : Option Nat := (a.characters.indexOf? c).map (· + 1)

/-- Packs text behind the `pending < 8` bits of `held`. -/
def pack (a : Alphabet) (id : UInt8) (held pending : Nat) : List Char → Except AlphabetError Octets
  | [] => .ok (if pending = 0 then [] else [UInt8.ofNat (held * 2 ^ (8 - pending))])
  | c :: cs =>
    match a.code? c with
    | none => .error (.characterNotInAlphabet id c)
    | some code =>
      let bits := held * 2 ^ a.width + code
      let count := pending + a.width
      let left := count % 8
      (a.pack id (bits % 2 ^ left) left cs).map (bigEndian (count / 8) (bits / 2 ^ left) ++ ·)

/-- The identifier `id` of the alphabet is for messages alone. -/
def encode (a : Alphabet) (id : UInt8) (text : String) : Except AlphabetError Octets :=
  a.pack id 0 0 text.toList

/-- Unpacks the `available` bits of `held` and the octets after them. -/
def unpack (a : Alphabet) (id : UInt8) (held available : Nat) (octets : Octets) :
    Except AlphabetError (List Char) :=
  if a.width ≤ available then
    let left := available - a.width
    let code := held / 2 ^ left
    if code = 0 then .ok []
    else
      match a.characters.get? (code - 1) with
      | none => .error (.invalidCode id code)
      | some c => (a.unpack id (held % 2 ^ left) left octets).map (c :: ·)
  else
    match octets with
    | [] => .ok []
    | octet :: rest => a.unpack id (held * 256 + octet.toNat) (available + 8) rest
termination_by (octets.length, available)
decreasing_by
  · exact Prod.Lex.right _ (by simp only [width] at *; omega)
  · exact Prod.Lex.left _ _ (by simp)

def decode (a : Alphabet) (id : UInt8) (octets : Octets) : Except AlphabetError String :=
  (a.unpack id 0 0 octets).map String.ofList

end Alphabet

end BinaryXml
