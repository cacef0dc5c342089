import BinaryXml.Octets
import BinaryXml.QuotedText

/-!
# Hexadecimal text

Two digits stand for each octet. Written digits are of one case; either case is read. Reading
refuses an odd number of digits before it looks at any of them.
-/

namespace BinaryXml.Hexadecimal

inductive Failure
  | oddLength
  | invalidDigit (octet : UInt8) (position : Nat)

/-- An octet that is no digit is shown as the character of the same number. -/
def Failure.message : Failure → String
  | .oddLength => "Odd number of digits"
  | .invalidDigit octet position =>
    let shown := QuotedText.quoteChar (Char.ofNat octet.toNat)
    s!"Invalid character {shown} at position {position}"

def lowerDigit (n : Nat) : Char :=
  if n < 10 then Char.ofNat (48 + n) else Char.ofNat (87 + n)

def upperDigit (n : Nat) : Char :=
  if n < 10 then Char.ofNat (48 + n) else Char.ofNat (55 + n)

def pair (digit : Nat → Char) (octet : UInt8) : List Char :=
  [digit (octet.toNat / 16), digit (octet.toNat % 16)]

def lower (octets : Octets) : String :=
  String.ofList (octets.flatMap (pair lowerDigit))

def upper (octets : Octets) : String :=
  String.ofList (octets.flatMap (pair upperDigit))

/-- The value of a digit, given by its ASCII code. -/
def digitValue? (octet : UInt8) : Option Nat :=
  let n := octet.toNat
  if 48 ≤ n && n ≤ 57 then some (n - 48)
  else if 65 ≤ n && n ≤ 70 then some (n - 55)
  else if 97 ≤ n && n ≤ 102 then some (n - 87)
  else none

def readDigit (octet : UInt8) (position : Nat) : Except Failure Nat :=
  match digitValue? octet with
  | some value => .ok value
  | none => .error (.invalidDigit octet position)

def readPairs (position : Nat) : Octets → Except Failure Octets
  | high :: low :: rest => do
    let h ← readDigit high position
    let l ← readDigit low (position + 1)
    let octets ← readPairs (position + 2) rest
    return UInt8.ofNat (h * 16 + l) :: octets
  | _ => .ok []

/-- Reads digits given by the octets of their text. -/
def read (digits : Octets) : Except Failure Octets :=
  if digits.length % 2 = 1 then .error .oddLength else readPairs 0 digits

end BinaryXml.Hexadecimal
