import BinaryXml.BinaryFloat
import BinaryXml.IntegerText

/-!
# Floating-point numbers in decimal

A number is written with the fewest digits that read back as the same number, and of those with
the digits nearest to it, the greater of two equally near; it is never written with an exponent.
Reading rounds the decimal number exactly once.
-/

namespace BinaryXml

-- Powers are those of `Nat` alone, whatever algebra is in scope.
attribute [local instance (high)] instPowNat

/-- The number `digits * 10 ^ exponent`. -/
structure Decimal where
  digits : Nat
  exponent : Int

namespace Decimal

/-! ## Writing -/

/-- The magnitudes that read back as one number, in common units: those between `low` and `high`,
with the ends if `closed`. The number itself is `center`. -/
structure Interval where
  low : Nat
  center : Nat
  high : Nat
  unit : Nat
  closed : Bool

/-- The interval ends halfway to the neighbours of a number; the lower neighbour is nearer where
the spacing changes. -/
def Interval.around (f : FloatFormat) (significand shift : Nat) : Interval where
  low :=
    let gap := if significand = 2 ^ f.fractionBits ∧ 0 < shift then 1 else 2
    (4 * significand - gap) * 2 ^ shift
  center := 4 * significand * 2 ^ shift
  high := (4 * significand + 2) * 2 ^ shift
  unit := 4 * 2 ^ f.scale
  closed := significand % 2 = 0

/-- The interval in units of `10 ^ exponent`. -/
def Interval.scaled (i : Interval) (exponent : Int) : Interval :=
  if 0 ≤ exponent then { i with unit := i.unit * 10 ^ exponent.toNat }
  else
    let factor := 10 ^ (-exponent).toNat
    { i with low := i.low * factor, center := i.center * factor, high := i.high * factor }

def Interval.holds (i : Interval) (n : Nat) : Bool :=
  let point := n * i.unit
  if i.closed then i.low ≤ point && point ≤ i.high else i.low < point && point < i.high

/-- The whole number in the interval that is nearest to its center. -/
def Interval.nearest? (i : Interval) : Option Nat :=
  let below := i.center / i.unit
  match i.holds below, i.holds (below + 1) with
  | false, false => none
  | true, false => some below
  | false, true => some (below + 1)
  | true, true => some (if 2 * (i.center % i.unit) < i.unit then below else below + 1)

/-- Searches ever finer grids, at most `steps` of them before the last. -/
def Interval.search (i : Interval) : (steps : Nat) → (exponent : Int) → Decimal
  | 0, exponent => let grid := i.scaled exponent; ⟨grid.center / grid.unit, exponent⟩
  | steps + 1, exponent =>
    match (i.scaled exponent).nearest? with
    | some digits => ⟨digits, exponent⟩
    | none => i.search steps (exponent - 1)

/-- The coarsest grid lies above the interval, and the finest holds every number of the format. -/
def shortest (f : FloatFormat) (significand shift : Nat) : Decimal :=
  let i := Interval.around f significand shift
  let top := Nat.log2 (i.high / i.unit) / 3 + 1
  i.search (top + f.scale) top

/-- All digits before and after the point, without an exponent. -/
def positional (d : Decimal) : String :=
  let digits := (Nat.repr d.digits).toList
  if 0 ≤ d.exponent then String.ofList (digits ++ List.replicate d.exponent.toNat '0')
  else
    let places := (-d.exponent).toNat
    if places < digits.length then
      let whole := digits.length - places
      String.ofList (digits.take whole ++ '.' :: digits.drop whole)
    else String.ofList ('0' :: '.' :: List.replicate (places - digits.length) '0' ++ digits)

/-! ## Reading -/

/-- The exponent stops growing once it is past every format. -/
def readExponentDigits (n : Nat) : List Char → Option Nat
  | [] => some n
  | c :: cs =>
    match IntegerText.digit? c with
    | none => none
    | some d => readExponentDigits (if n < 0x10000 then n * 10 + d else n) cs

def readExponent? : List Char → Option Int
  | [] => none
  | '-' :: c :: cs => (readExponentDigits 0 (c :: cs)).map fun n => -(n : Int)
  | '+' :: c :: cs => (readExponentDigits 0 (c :: cs)).map Int.ofNat
  | cs => (readExponentDigits 0 cs).map Int.ofNat

def isDigit (c : Char) : Bool := (IntegerText.digit? c).isSome

def digitsValue (cs : List Char) : Nat :=
  cs.foldl (fun n c => n * 10 + (c.toNat - 48)) 0

/-- Digits with at most one point among them, at least one digit, and perhaps an exponent. -/
def read? (cs : List Char) : Option Decimal :=
  let whole := cs.takeWhile isDigit
  let afterWhole := cs.dropWhile isDigit
  let (fraction, rest) :=
    match afterWhole with
    | '.' :: cs => (cs.takeWhile isDigit, cs.dropWhile isDigit)
    | _ => ([], afterWhole)
  if whole.isEmpty && fraction.isEmpty then none
  else
    let exponent? :=
      match rest with
      | [] => some 0
      | c :: cs => if c = 'e' || c = 'E' then readExponent? cs else none
    exponent?.map fun exponent => ⟨digitsValue (whole ++ fraction), exponent - fraction.length⟩

/-- The magnitude nearest to the decimal number. -/
def round (f : FloatFormat) (d : Decimal) : Nat :=
  if 0 ≤ d.exponent then f.ofRatio (d.digits * 10 ^ d.exponent.toNat) 1
  else f.ofRatio d.digits (10 ^ (-d.exponent).toNat)

end Decimal

namespace FloatFormat

/-- The text of a number, in the spelling of XML for those that are not finite. -/
def text (f : FloatFormat) (bits : Nat) : String :=
  match f.value bits with
  | .nan => "NaN"
  | .infinite negative => if negative then "-INF" else "INF"
  | .finite negative significand shift =>
    let magnitude :=
      if significand = 0 then "0" else (Decimal.shortest f significand shift).positional
    if negative then "-" ++ magnitude else magnitude

/-- Names of the numbers that are not finite are read in any case. -/
def readMagnitude? (f : FloatFormat) (cs : List Char) : Option Nat :=
  match Decimal.read? cs with
  | some d => some (d.round f)
  | none =>
    let name := String.ofList (cs.map Char.toLower)
    if name = "inf" || name = "infinity" then some f.infinity
    else if name = "nan" then some f.nan
    else none

/-- One sign at most stands in front, also of what is no number. -/
def read? (f : FloatFormat) (cs : List Char) : Option Nat :=
  let (negative, magnitude) :=
    match cs with
    | '-' :: rest => (true, rest)
    | '+' :: rest => (false, rest)
    | _ => (false, cs)
  (f.readMagnitude? magnitude).map (f.withSign negative)

end FloatFormat

end BinaryXml
