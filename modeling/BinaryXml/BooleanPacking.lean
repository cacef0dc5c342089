import BinaryXml.Octets

/-!
# Packed booleans

Four bits tell how many bits at the end are unused; then each boolean takes one bit, the most
significant bit of an octet first.
-/

namespace BinaryXml.BooleanPacking

def octetOfBits (bits : List Bool) : UInt8 :=
  UInt8.ofNat (bits.foldl (fun n bit => n * 2 + bit.toNat) 0)

def bitsOfOctet (octet : UInt8) : List Bool :=
  [octet.toNat / 128 % 2 == 1, octet.toNat / 64 % 2 == 1, octet.toNat / 32 % 2 == 1,
    octet.toNat / 16 % 2 == 1, octet.toNat / 8 % 2 == 1, octet.toNat / 4 % 2 == 1,
    octet.toNat / 2 % 2 == 1, octet.toNat % 2 == 1]

/-- Bits beyond the last whole octet are dropped. -/
def octetsOfBits : List Bool → Octets
  | a :: b :: c :: d :: e :: f :: g :: h :: rest =>
    octetOfBits [a, b, c, d, e, f, g, h] :: octetsOfBits rest
  | _ => []

def bitsOfOctets (octets : Octets) : List Bool := octets.flatMap bitsOfOctet

/-- How many bits are left over behind `count` booleans. -/
def unusedBits (count : Nat) : Nat := (4 + count + 7) / 8 * 8 - (4 + count)

def pack (values : List Bool) : Octets :=
  let unused := unusedBits values.length
  octetsOfBits (((bitsOfOctet (UInt8.ofNat unused)).drop 4 ++ values) ++
    List.replicate unused false)

def unpack (octets : Octets) : Except String (List Bool) :=
  match octets with
  | [] => .error "no octets"
  | first :: _ =>
    let unused := first.toNat / 16
    if 7 < unused || octets.length * 8 < 4 + unused then
      .error "unused bit count exceeds the available bits"
    else .ok (((bitsOfOctets octets).drop 4).take (octets.length * 8 - 4 - unused))

end BinaryXml.BooleanPacking
