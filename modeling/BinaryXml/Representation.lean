import BinaryXml.CharacterEncoding
import BinaryXml.Ladder

/-!
# Representations of strings

A string in a document is a literal, the index of an entry that both sides know, or octets packed
by an encoding algorithm or a restricted alphabet. Three written forms differ in the bits that the
string starts on and in what they admit: identifying strings, which name things and are always
added to their table; other strings; and chunks of character content.
-/

namespace BinaryXml

-- Powers are those of `Nat` alone, whatever algebra is in scope.
attribute [local instance (high)] instPowNat

inductive Packing
  | algorithm
  | alphabet
  deriving DecidableEq

namespace Packing

def discriminant : Packing → Nat
  | alphabet => 2
  | algorithm => 3

def name : Packing → String
  | algorithm => "encoding algorithm"
  | alphabet => "restricted alphabet"

end Packing

/-- `add` asks the reader to enter the string into its table. -/
inductive Representation
  | literal (value : String) (add : Bool)
  | indexed (index : Nat)
  | packed (packing : Packing) (id : UInt8) (octets : Octets) (add : Bool)
  deriving DecidableEq

namespace Representation

def addsToTable : Representation → Bool
  | literal _ add => add
  | indexed _ => false
  | packed _ _ _ add => add

/-- The two bits that tell how a string that is no index is given. -/
inductive Manner
  | encoded (encoding : CharacterEncoding)
  | packed (packing : Packing)

def Manner.ofDiscriminant (n : Nat) : Manner :=
  if n = 0 then .encoded .utf8
  else if n = 1 then .encoded .utf16
  else if n = 2 then .packed .alphabet
  else .packed .algorithm

/-- Reads the string that `first` begins, other than an index. Above the free bits of the ladder two
bits tell how the string is given, and the next one whether it is to be entered. The identifier of
packed octets begins in the free bits and ends above those of a second octet, which hold the
length. -/
def readInManner (l : Ladder) (first : UInt8) : Parser Representation := do
  let front := first.toNat / 2 ^ l.free
  let add := front / 4 % 2 == 1
  match Manner.ofDiscriminant (front % 4) with
  | .encoded encoding =>
    let octets ← l.readString first
    let value ← Parser.text encoding octets
    return literal value add
  | .packed packing =>
    let second ← Parser.octet
    let octets ← l.readString second
    let id := first.toNat % 2 ^ l.free * 2 ^ (8 - l.free) + second.toNat / 2 ^ l.free
    return packed packing (UInt8.ofNat id) octets add

theorem consumes_readInManner (l : Ladder) (first : UInt8) : Consumes (readInManner l first) := by
  unfold readInManner
  dsimp only
  split
  · exact consumes_bind (Ladder.consumes_readString _ _) fun _ =>
      consumes_bind (Parser.consumes_text _ _) fun _ => consumes_pure _
  · exact consumes_bind Parser.consumes_octet fun _ =>
      consumes_bind (Ladder.consumes_readString _ _) fun _ => consumes_pure _

/-! ## Identifying strings -/

def emitIdentifying : Representation → Emission
  | literal value _ => lengthOnSecondBit.emitString 0x00 (Utf8.encode value)
  | indexed index => indexOnSecondBit.emitIndex 0x80 index
  | packed packing _ _ _ =>
    .failed (.unsupportedRepresentation "identifying string" packing.name)

def readIdentifying : Parser Representation := do
  let first ← Parser.octet
  if first.toNat < 0x80 then
    let octets ← lengthOnSecondBit.readString first
    let value ← Parser.text .utf8 octets
    return literal value true
  else
    let index ← indexOnSecondBit.readIndex first
    return indexed index

theorem consumes_readIdentifying : Consumes readIdentifying := by
  refine consumes_bind Parser.consumes_octet fun first => consumes_ite ?_ ?_
  · exact consumes_bind (Ladder.consumes_readString _ _) fun _ =>
      consumes_bind (Parser.consumes_text _ _) fun _ => consumes_pure _
  · exact consumes_bind (Ladder.consumes_readIndex _ _) fun _ => consumes_pure _

/-! ## Non-identifying strings -/

/-- An empty string is this single octet. -/
def emptyString : UInt8 := 0xFF

def emitNonIdentifying (encoding : CharacterEncoding) : Representation → Emission
  | literal value add =>
    if value.isEmpty then .done [emptyString]
    else
      lengthOnFifthBit.emitString
        (flagBit add 0x40 ||| UInt8.ofNat (encoding.discriminant * 16)) (encoding.encode value)
  | indexed index => indexOnSecondBit.emitIndex 0x80 index
  | packed packing id octets add =>
    if octets.isEmpty then .failed .emptyValue
    else
      .done [flagBit add 0x40 ||| UInt8.ofNat (packing.discriminant * 16 + id.toNat / 16)] ++
        lengthOnFifthBit.emitString (UInt8.ofNat (id.toNat % 16 * 16)) octets

def readNonIdentifying : Parser Representation := do
  let first ← Parser.octet
  if first = emptyString then return literal "" false
  else if 0x80 ≤ first.toNat then
    let index ← indexOnSecondBit.readIndex first
    return indexed index
  else readInManner lengthOnFifthBit first

theorem consumes_readNonIdentifying : Consumes readNonIdentifying := by
  refine consumes_bind Parser.consumes_octet fun first =>
    consumes_ite (consumes_pure _) (consumes_ite ?_ ?_)
  · exact consumes_bind (Ladder.consumes_readIndex _ _) fun _ => consumes_pure _
  · exact consumes_readInManner _ _

/-! ## Chunks of character content -/

def emitChunk (encoding : CharacterEncoding) : Representation → Emission
  | literal value add =>
    if value.isEmpty then .failed .emptyValue
    else
      lengthOnSeventhBit.emitString
        (0x80 ||| flagBit add 0x10 ||| UInt8.ofNat (encoding.discriminant * 4))
        (encoding.encode value)
  | indexed index => indexOnFourthBit.emitIndex 0xA0 index
  | packed packing id octets add =>
    if octets.isEmpty then .failed .emptyValue
    else
      .done [0x80 ||| flagBit add 0x10 |||
          UInt8.ofNat (packing.discriminant * 4 + id.toNat / 64)] ++
        lengthOnSeventhBit.emitString (UInt8.ofNat (id.toNat % 64 * 4)) octets

/-- Reads the chunk that `first` begins. -/
def readChunk (first : UInt8) : Parser Representation := do
  if first.toNat / 64 != 2 then Parser.unexpected first "character chunk"
  else if first.toNat / 32 % 2 = 1 then
    let index ← indexOnFourthBit.readIndex first
    return indexed index
  else readInManner lengthOnSeventhBit first

theorem consumes_readChunk (first : UInt8) : Consumes (readChunk first) := by
  refine consumes_ite (Parser.consumes_unexpected _ _) (consumes_ite ?_ ?_)
  · exact consumes_bind (Ladder.consumes_readIndex _ _) fun _ => consumes_pure _
  · exact consumes_readInManner _ _

end Representation

end BinaryXml
