import BinaryXml.Octets

/-!
# UTF-8

Decoding is strict: of all octet strings it takes exactly those that `encode` writes. A failure
tells where the first bad sequence starts and how many octets of it could have begun a character.
-/

namespace BinaryXml.Utf8

structure Failure where
  index : Nat
  /-- Absent if the octets end inside a sequence that was valid so far. -/
  badLength? : Option Nat

def Failure.message (f : Failure) : String :=
  match f.badLength? with
  | some length => s!"invalid utf-8 sequence of {length} bytes from index {f.index}"
  | none => s!"incomplete utf-8 byte sequence from index {f.index}"

def encodeChar (c : Char) : Octets :=
  let n := c.toNat
  if n < 0x80 then [UInt8.ofNat n]
  else if n < 0x800 then [UInt8.ofNat (0xC0 + n / 64), UInt8.ofNat (0x80 + n % 64)]
  else if n < 0x10000 then
    [UInt8.ofNat (0xE0 + n / 4096), UInt8.ofNat (0x80 + n / 64 % 64), UInt8.ofNat (0x80 + n % 64)]
  else
    [UInt8.ofNat (0xF0 + n / 262144), UInt8.ofNat (0x80 + n / 4096 % 64),
      UInt8.ofNat (0x80 + n / 64 % 64), UInt8.ofNat (0x80 + n % 64)]

def encode (text : String) : Octets :=
  text.toList.flatMap encodeChar

def isContinuation (octet : UInt8) : Bool :=
  0x80 ≤ octet.toNat && octet.toNat < 0xC0

/-- The second octet is bounded further where a lead octet could begin a surrogate, a number
that fits fewer octets, or one past the last character. -/
def mayFollow (lead : Nat) (second : UInt8) : Bool :=
  isContinuation second &&
    (lead != 0xE0 || 0xA0 ≤ second.toNat) && (lead != 0xED || second.toNat < 0xA0) &&
    (lead != 0xF0 || 0x90 ≤ second.toNat) && (lead != 0xF4 || second.toNat < 0x90)

/-- The characters of a string of octets whose first octet has the given index. -/
def decodeFrom (index : Nat) : Octets → Except Failure (List Char)
  | [] => .ok []
  | first :: rest =>
    let lead := first.toNat
    if lead < 0x80 then
      (decodeFrom (index + 1) rest).map (Char.ofNat lead :: ·)
    else if lead < 0xC2 || 0xF4 < lead then .error ⟨index, some 1⟩
    else
      match rest with
      | [] => .error ⟨index, none⟩
      | second :: rest =>
        if !mayFollow lead second then .error ⟨index, some 1⟩
        else if lead < 0xE0 then
          let n := (lead - 0xC0) * 64 + (second.toNat - 0x80)
          (decodeFrom (index + 2) rest).map (Char.ofNat n :: ·)
        else
          match rest with
          | [] => .error ⟨index, none⟩
          | third :: rest =>
            if !isContinuation third then .error ⟨index, some 2⟩
            else if lead < 0xF0 then
              let n := (lead - 0xE0) * 4096 + (second.toNat - 0x80) * 64 + (third.toNat - 0x80)
              (decodeFrom (index + 3) rest).map (Char.ofNat n :: ·)
            else
              match rest with
              | [] => .error ⟨index, none⟩
              | fourth :: rest =>
                if !isContinuation fourth then .error ⟨index, some 3⟩
                else
                  let n := (lead - 0xF0) * 262144 + (second.toNat - 0x80) * 4096 +
                    (third.toNat - 0x80) * 64 + (fourth.toNat - 0x80)
                  (decodeFrom (index + 4) rest).map (Char.ofNat n :: ·)

def decode (octets : Octets) : Except Failure String :=
  (decodeFrom 0 octets).map String.ofList

end BinaryXml.Utf8
