import BinaryXml.Hexadecimal
import BinaryXml.Utf8

/-!
# Universally unique identifiers

The text is 32 digits in groups of 8, 4, 4, 4 and 12. Reading also takes the digits without
hyphens, and the groups in braces or behind `urn:uuid:`, in any case.
-/

namespace BinaryXml

structure Uuid where
  number : BitVec 128
  deriving DecidableEq

namespace Uuid

def ofOctets (octets : Octets) : Uuid := ⟨BitVec.ofNat 128 (ofBigEndian octets)⟩

def toOctets (u : Uuid) : Octets := bigEndian 16 u.number.toNat

def text (u : Uuid) : String :=
  let digits := (u.toOctets.flatMap (Hexadecimal.pair Hexadecimal.lowerDigit))
  let group (start length : Nat) : String := String.ofList ((digits.drop start).take length)
  String.intercalate "-" [group 0 8, group 8 4, group 12 4, group 16 4, group 20 12]

/-- Takes hyphens out of the places between groups; `none` if one is missing. -/
def ungroup? (cs : List Char) : Option (List Char) :=
  let isHyphen (i : Nat) : Bool := cs[i]? == some '-'
  if isHyphen 8 && isHyphen 13 && isHyphen 18 && isHyphen 23 then
    some (cs.take 8 ++ (cs.drop 9).take 4 ++ (cs.drop 14).take 4 ++ (cs.drop 19).take 4 ++
      cs.drop 24)
  else none

def ofDigits? (cs : List Char) : Option Uuid :=
  match Hexadecimal.read (Utf8.encode (String.ofList cs)) with
  | .ok octets => if octets.length = 16 then some (ofOctets octets) else none
  | .error _ => none

def read? (cs : List Char) : Option Uuid :=
  match cs.length with
  | 32 => ofDigits? cs
  | 36 => ungroup? cs >>= ofDigits?
  | 38 =>
    if cs.head? = some '\x7b' && cs.getLast? = some '\x7d' then
      ungroup? ((cs.drop 1).take 36) >>= ofDigits?
    else none
  | 45 =>
    if (cs.take 9).map Char.toLower = "urn:uuid:".toList then
      ungroup? (cs.drop 9) >>= ofDigits?
    else none
  | _ => none

end Uuid

end BinaryXml
