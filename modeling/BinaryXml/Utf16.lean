import BinaryXml.Octets
import BinaryXml.QuotedText

/-!
# UTF-16 in big-endian units

Characters past U+FFFF take two surrogate units, high before low. Decoding refuses an odd number
of octets before it looks at any unit, and then the first surrogate without its partner.
-/

namespace BinaryXml.Utf16

inductive Failure
  | oddLength (length : Nat)
  | unpairedSurrogate (unit : Nat)

def Failure.message : Failure → String
  | .oddLength length => s!"odd length {length}"
  | .unpairedSurrogate unit => "unpaired surrogate found: " ++ QuotedText.hexDigits unit

def units (c : Char) : List Nat :=
  let n := c.toNat
  if n < 0x10000 then [n]
  else [0xD800 + (n - 0x10000) / 0x400, 0xDC00 + (n - 0x10000) % 0x400]

def encode (text : String) : Octets :=
  (text.toList.flatMap units).flatMap (bigEndian 2)

def isHighSurrogate (unit : Nat) : Bool := 0xD800 ≤ unit && unit < 0xDC00

def isLowSurrogate (unit : Nat) : Bool := 0xDC00 ≤ unit && unit < 0xE000

def ofUnits : List Nat → Except Failure (List Char)
  | [] => .ok []
  | unit :: rest =>
    if isLowSurrogate unit then .error (.unpairedSurrogate unit)
    else if isHighSurrogate unit then
      match rest with
      | low :: rest =>
        if isLowSurrogate low then
          let n := 0x10000 + (unit - 0xD800) * 0x400 + (low - 0xDC00)
          (ofUnits rest).map (Char.ofNat n :: ·)
        else .error (.unpairedSurrogate unit)
      | [] => .error (.unpairedSurrogate unit)
    else (ofUnits rest).map (Char.ofNat unit :: ·)

def readUnits : Octets → List Nat
  | high :: low :: rest => (high.toNat * 256 + low.toNat) :: readUnits rest
  | _ => []

def decode (octets : Octets) : Except Failure String :=
  if octets.length % 2 = 1 then .error (.oddLength octets.length)
  else (ofUnits (readUnits octets)).map String.ofList

end BinaryXml.Utf16
