/-!
# Integers in decimal

Digits are read from the left and the first failure decides: a character that is no digit, or a
digit that carries the number past its limit.
-/

namespace BinaryXml.IntegerText

-- Powers are those of `Nat` alone, whatever algebra is in scope.
attribute [local instance (high)] instPowNat

inductive Failure
  | empty
  | invalidDigit
  | tooLarge
  | tooSmall

def Failure.message : Failure → String
  | .empty => "cannot parse integer from empty string"
  | .invalidDigit => "invalid digit found in string"
  | .tooLarge => "number too large to fit in target type"
  | .tooSmall => "number too small to fit in target type"

def digit? (c : Char) : Option Nat :=
  if '0' ≤ c && c ≤ '9' then some (c.toNat - 48) else none

/-- Continues the number `n` with further digits, up to `limit`. -/
def readDigits (limit : Nat) (past : Failure) (n : Nat) : List Char → Except Failure Nat
  | [] => .ok n
  | c :: cs =>
    match digit? c with
    | none => .error .invalidDigit
    | some d => if n * 10 + d ≤ limit then readDigits limit past (n * 10 + d) cs else .error past

/-- An integer of the given number of bits, one of them for the sign. -/
def readSigned (bits : Nat) : List Char → Except Failure Int
  | [] => .error .empty
  | ['+'] | ['-'] => .error .invalidDigit
  | '-' :: cs => (readDigits (2 ^ (bits - 1)) .tooSmall 0 cs).map fun n => -(n : Int)
  | '+' :: cs => (readDigits (2 ^ (bits - 1) - 1) .tooLarge 0 cs).map Int.ofNat
  | cs => (readDigits (2 ^ (bits - 1) - 1) .tooLarge 0 cs).map Int.ofNat

/-- A natural number of the given number of bits; a minus sign is no digit of it. -/
def readUnsigned (bits : Nat) : List Char → Except Failure Nat
  | [] => .error .empty
  | ['+'] => .error .invalidDigit
  | '+' :: cs => readDigits (2 ^ bits - 1) .tooLarge 0 cs
  | cs => readDigits (2 ^ bits - 1) .tooLarge 0 cs

end BinaryXml.IntegerText
