/-!
# Binary floating point

Floating-point numbers are kept as their bit patterns. Without its sign, the pattern of a finite
number is the position of its magnitude among all magnitudes of the format, so rounding a ratio
is finding the nearest position.
-/

namespace BinaryXml

-- Powers are those of `Nat` alone, whatever algebra is in scope.
attribute [local instance (high)] instPowNat

structure FloatFormat where
  fractionBits : Nat
  exponentBits : Nat

def binary32 : FloatFormat := ⟨23, 8⟩

def binary64 : FloatFormat := ⟨52, 11⟩

/-- A finite number is `significand * 2 ^ shift` times the least magnitude of its format. -/
inductive FloatValue
  | finite (negative : Bool) (significand shift : Nat)
  | infinite (negative : Bool)
  | nan

namespace FloatFormat

/-- The least magnitude is `2 ^ -scale`. -/
def scale (f : FloatFormat) : Nat := 2 ^ (f.exponentBits - 1) - 2 + f.fractionBits

def infinity (f : FloatFormat) : Nat := (2 ^ f.exponentBits - 1) * 2 ^ f.fractionBits

def signBit (f : FloatFormat) : Nat := 2 ^ (f.fractionBits + f.exponentBits)

/-- The pattern of a number that is none, with its first fraction bit set. -/
def nan (f : FloatFormat) : Nat := f.infinity + 2 ^ (f.fractionBits - 1)

def value (f : FloatFormat) (bits : Nat) : FloatValue :=
  let negative := f.signBit ≤ bits
  let magnitude := bits % f.signBit
  if f.infinity < magnitude then .nan
  else if magnitude = f.infinity then .infinite negative
  else
    let exponent := magnitude / 2 ^ f.fractionBits
    let fraction := magnitude % 2 ^ f.fractionBits
    if exponent = 0 then .finite negative fraction 0
    else .finite negative (2 ^ f.fractionBits + fraction) (exponent - 1)

/-- The quotient, rounded to the nearest integer and halves to the even one. -/
def roundHalfEven (n d : Nat) : Nat :=
  let quotient := n / d
  let twice := 2 * (n % d)
  if twice < d then quotient
  else if d < twice then quotient + 1
  else quotient + quotient % 2

/-- The magnitude nearest to a ratio; what is nearest to no finite one is infinite. -/
def ofRatio (f : FloatFormat) (n d : Nat) : Nat :=
  let scaled := n * 2 ^ f.scale
  let shift := Nat.log2 (scaled / d) - f.fractionBits
  min (shift * 2 ^ f.fractionBits + roundHalfEven scaled (d * 2 ^ shift)) f.infinity

def withSign (f : FloatFormat) (negative : Bool) (magnitude : Nat) : Nat :=
  if negative then f.signBit + magnitude else magnitude

/-- Rounds a number of one format to another. What is no number stays none, with its sign. -/
def convert (source target : FloatFormat) (bits : Nat) : Nat :=
  match source.value bits with
  | .nan => target.withSign (source.signBit ≤ bits) target.nan
  | .infinite negative => target.withSign negative target.infinity
  | .finite negative significand shift =>
    target.withSign negative (target.ofRatio (significand * 2 ^ shift) (2 ^ source.scale))

end FloatFormat

end BinaryXml
