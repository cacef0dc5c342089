import BinaryXml.Emission
import BinaryXml.Input

/-!
# Graduated numbers

Indices and lengths start in the free low bits of the octet that identifies an item and spill over
into further octets as they grow. A `Ladder` lists the rungs of one such scheme in ascending order;
reading and writing are the same for all of them.
-/

namespace BinaryXml

-- Powers are those of `Nat` alone, whatever algebra is in scope.
attribute [local instance (high)] instPowNat

/-- The leading values `mark`, ..., `mark + span - 1`, each followed by `tail` octets, hold the
numbers from `least` on. The `spare` highest bits of the tail carry nothing. -/
structure Rung where
  least : Nat
  mark : Nat
  span : Nat
  tail : Nat
  spare : Nat := 0

namespace Rung

/-- How many numbers share one leading value. -/
def width (r : Rung) : Nat := 2 ^ (8 * r.tail - r.spare)

def capacity (r : Rung) : Nat := r.span * r.width

def holdsMark (r : Rung) (bits : Nat) : Bool :=
  r.mark ≤ bits && bits < r.mark + r.span

end Rung

structure Ladder where
  context : String
  /-- How many low bits of the first octet belong to the number. -/
  free : Nat
  rungs : List Rung

namespace Ladder

/-- The free bits of a first octet. -/
def bits (l : Ladder) (first : UInt8) : Nat := first.toNat % 2 ^ l.free

def rungOfMark? (l : Ladder) (first : UInt8) : Option Rung :=
  l.rungs.find? (·.holdsMark (l.bits first))

def rungOfValue? (l : Ladder) (value : Nat) : Option Rung :=
  l.rungs.reverse.find? (·.least ≤ value)

/-- Writes a number behind the bits `fixed` of its first octet. -/
def emit (l : Ladder) (fixed : UInt8) (value : Nat) : Emission :=
  match l.rungOfValue? value with
  | none => .failed .emptyValue
  | some r =>
    let steps := value - r.least
    if steps < r.capacity then
      .done ((fixed ||| UInt8.ofNat (r.mark + steps / r.width)) ::
        bigEndian r.tail (steps % r.width))
    else ⟨[fixed ||| UInt8.ofNat r.mark], some (.lengthOutOfRange steps)⟩

/-- Reads the number that `first` begins, taking its tail as `readTail` does. -/
def read (l : Ladder) (readTail : Nat → Parser Octets) (first : UInt8) : Parser Nat :=
  match l.rungOfMark? first with
  | none => Parser.unexpected first l.context
  | some r => do
    let tail ← readTail r.tail
    return r.least + (l.bits first - r.mark) * r.width + ofBigEndian tail % r.width

theorem consumes_read {readTail : Nat → Parser Octets} (h : ∀ n, Consumes (readTail n))
    (l : Ladder) (first : UInt8) : Consumes (l.read readTail first) := by
  unfold read
  split
  · exact Parser.consumes_unexpected _ _
  · exact consumes_bind (h _) fun _ => consumes_pure _

end Ladder

/-! ## Indices -/

/-- Indices from here on cannot be written. -/
def indexLimit : Nat := 0x100000

def indexOnSecondBit : Ladder where
  context := "index on second bit"
  free := 7
  rungs := [⟨0, 0x00, 64, 0, 0⟩, ⟨64, 0x40, 32, 1, 0⟩, ⟨8256, 0x60, 16, 2, 0⟩]

def indexOnThirdBit : Ladder where
  context := "index on third bit"
  free := 6
  rungs := [⟨0, 0x00, 32, 0, 0⟩, ⟨32, 0x20, 8, 1, 0⟩, ⟨2080, 0x28, 8, 2, 0⟩,
    ⟨526368, 0x30, 1, 3, 4⟩]

def indexOnFourthBit : Ladder where
  context := "index on fourth bit"
  free := 5
  rungs := [⟨0, 0x00, 16, 0, 0⟩, ⟨16, 0x10, 4, 1, 0⟩, ⟨1040, 0x14, 4, 2, 0⟩,
    ⟨263184, 0x18, 1, 3, 4⟩]

def Ladder.emitIndex (l : Ladder) (fixed : UInt8) (index : Nat) : Emission :=
  if index < indexLimit then l.emit fixed index else .failed (.indexOutOfRange index)

/-- The tail of an index is read octet by octet. -/
def Ladder.readIndex (l : Ladder) (first : UInt8) : Parser Nat :=
  l.read Parser.octets first

theorem Ladder.consumes_readIndex (l : Ladder) (first : UInt8) : Consumes (l.readIndex first) :=
  l.consumes_read Parser.consumes_octets first

/-! ## Lengths -/

def lengthOnSecondBit : Ladder where
  context := "length on second bit"
  free := 7
  rungs := [⟨1, 0x00, 64, 0, 0⟩, ⟨65, 0x40, 1, 1, 0⟩, ⟨321, 0x60, 1, 4, 0⟩]

def lengthOnFifthBit : Ladder where
  context := "length on fifth bit"
  free := 4
  rungs := [⟨1, 0x0, 8, 0, 0⟩, ⟨9, 0x8, 1, 1, 0⟩, ⟨265, 0xC, 1, 4, 0⟩]

def lengthOnSeventhBit : Ladder where
  context := "length on seventh bit"
  free := 2
  rungs := [⟨1, 0, 2, 0, 0⟩, ⟨3, 2, 1, 1, 0⟩, ⟨259, 3, 1, 4, 0⟩]

/-- The tail of a length is read as a whole. -/
def Ladder.readLength (l : Ladder) (first : UInt8) : Parser Nat :=
  l.read Parser.slice first

/-- A non-empty octet string behind its length. -/
def Ladder.emitString (l : Ladder) (fixed : UInt8) (octets : Octets) : Emission :=
  l.emit fixed octets.length ++ .done octets

/-- The octet string whose length `first` begins. -/
def Ladder.readString (l : Ladder) (first : UInt8) : Parser Octets := do
  let length ← l.readLength first
  Parser.slice length

theorem Ladder.consumes_readString (l : Ladder) (first : UInt8) :
    Consumes (l.readString first) :=
  consumes_bind (l.consumes_read Parser.consumes_slice first) Parser.consumes_slice

end BinaryXml
