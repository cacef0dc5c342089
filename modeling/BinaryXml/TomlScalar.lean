import BinaryXml.DecimalText
import BinaryXml.Datum
import BinaryXml.Scan
import BinaryXml.TomlText

/-!
# Numbers, dates and times in TOML

How a number is written is checked where it stands. Whether it has a value matters only to those
who read it, so a number without one is a datum too.
-/

namespace BinaryXml.TomlScalar

open Scan TomlText

/-! ## Numbers -/

def isDigitOf (base : Nat) (c : Char) : Bool := (digitValue? base c).isSome

/-- Leaves underscores out, each of which must stand between two digits of the base. -/
def dropUnderscores? (base : Nat) (afterDigit : Bool) : List Char → Option (List Char)
  | [] => some []
  | c :: cs =>
    if c = '_' then
      if afterDigit && cs.head?.any (isDigitOf base) then dropUnderscores? base false cs else none
    else (dropUnderscores? base (isDigitOf base c) cs).map (c :: ·)

def splitSign : List Char → Bool × List Char
  | '-' :: cs => (true, cs)
  | '+' :: cs => (false, cs)
  | cs => (false, cs)

/-- An integer is signed or unsigned, of 128 bits. -/
def ofInt (n : Int) : Datum :=
  if -(1 <<< 127 : Nat) ≤ n && n < (1 <<< 128 : Nat) then .integer n else .unreadable

/-- Digits of a base that is named in front of them. There may be none, but then they have no
value. -/
def based? (base : Nat) (cs : List Char) : Option Datum := do
  match ← dropUnderscores? base false cs with
  | [] => return .unreadable
  | ds => (number? base ds).map (ofInt ·)

/-- Decimal digits, which begin with zero only if that is all. Anything but a point, an exponent or
a space may follow an underscore between hexadecimal digits, but has no value. -/
def decimal? (cs : List Char) : Option Datum := do
  let (negative, cs) := splitSign cs
  let rest := cs.dropWhile isDigit
  if cs.isEmpty || (cs.head? = some '0' && 1 < cs.length) || rest.head?.any (· ≠ '_') ||
      rest.any (fun c => c = '.' || c = 'e' || c = 'E' || c = ' ') then none
  else
    let ds ← dropUnderscores? 16 false cs
    match number? 10 ds with
    | some n => return ofInt (if negative then -n else n)
    | none => return .unreadable

def integer? : List Char → Option Datum
  | '0' :: 'x' :: cs => based? 16 cs
  | '0' :: 'o' :: cs => based? 8 cs
  | '0' :: 'b' :: cs => based? 2 cs
  | cs => decimal? cs

/-- A number with a point or an exponent has a value unless it is too large for a double. -/
def fraction? (cs : List Char) : Option Datum := do
  let (_, cs) := splitSign cs
  if cs = "inf".toList || cs = "nan".toList then return .other
  else
    let ds ← dropUnderscores? 10 false cs
    if ds.all isDigit then none
    else
      decimal.whole? ds
      let magnitude ← binary64.read? ds
      return if magnitude < binary64.infinity then .other else .unreadable

/-! ## Dates and times -/

def fixedDigits (count : Nat) : Scan Nat := fun cs =>
  if count ≤ cs.length && (cs.take count).all isDigit then
    (number? 10 (cs.take count)).map (·, cs.drop count)
  else none

def within (low high n : Nat) : Scan Unit :=
  if low ≤ n && n ≤ high then pure () else failure

def daysOf (year month : Nat) : Nat :=
  if month = 2 then
    if (year % 4 = 0 && year % 100 ≠ 0) || year % 400 = 0 then 29 else 28
  else if month = 4 || month = 6 || month = 9 || month = 11 then 30
  else 31

def date : Scan Unit := do
  let year ← fixedDigits 4
  expect "-"
  let month ← fixedDigits 2
  within 1 12 month
  expect "-"
  fixedDigits 2 >>= within 1 (daysOf year month)

/-- The seconds may be missing. -/
def time : Scan Unit := do
  fixedDigits 2 >>= within 0 23
  expect ":"
  fixedDigits 2 >>= within 0 59
  if ← accept ":" then
    fixedDigits 2 >>= within 0 60
    fraction

def offset : Scan Unit := do
  match ← peek? with
  | some 'Z' | some 'z' => let _ ← next
  | some '+' | some '-' =>
    let _ ← next
    fixedDigits 2 >>= within 0 23
    expect ":"
    fixedDigits 2 >>= within 0 59
  | _ => return

def moment : Scan Unit := do
  date
  match ← peek? with
  | none => return
  | some 'T' | some 't' | some ' ' =>
    let _ ← next
    time
    offset
  | some _ => failure

def isMoment (cs : List Char) : Bool :=
  (moment.whole? cs).isSome || (time.whole? cs).isSome

/-! ## Scalars -/

def scalar? (cs : List Char) : Option Datum :=
  if cs = "true".toList then some (.boolean true)
  else if cs = "false".toList then some (.boolean false)
  else if isMoment cs then some .moment
  else integer? cs <|> fraction? cs

/-- What ends a scalar wherever it stands. -/
def isDelimiter (c : Char) : Bool := "=,[]\x7b\x7d#\r\n".toList.contains c

/-- Words with blanks between and behind them, such as a date and its time. A quote behind a blank
begins a text of its own. -/
def takeWords (afterBlank : Bool) : List Char → List Char × List Char
  | [] => ([], [])
  | c :: cs =>
    if isDelimiter c || (afterBlank && (c = '"' || c = '\'')) then ([], c :: cs)
    else
      let (taken, rest) := takeWords (isBlank c) cs
      (c :: taken, rest)

def scalar : Scan Datum := do
  let words ← ofFunction fun cs => some (takeWords false cs)
  ofOption (scalar? (words.reverse.dropWhile isBlank).reverse)

end BinaryXml.TomlScalar
