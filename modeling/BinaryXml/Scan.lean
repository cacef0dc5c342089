/-!
# Reading from text

A scan takes characters from the front of a text, or fails.
-/

namespace BinaryXml

abbrev Scan := StateT (List Char) Option

namespace Scan

def next : Scan Char
  | [] => none
  | c :: cs => some (c, cs)

/-- The character that would be taken next. -/
def peek? : Scan (Option Char) := fun cs => some (cs.head?, cs)

def takeWhile (p : Char → Bool) : Scan (List Char) := fun cs =>
  some (cs.takeWhile p, cs.dropWhile p)

def skipWhile (p : Char → Bool) : Scan Unit := fun cs => some ((), cs.dropWhile p)

/-- Takes the given text if it comes next. -/
def accept (text : String) : Scan Bool := fun cs =>
  if text.toList.isPrefixOf cs then some (true, cs.drop text.length) else some (false, cs)

def expect (text : String) : Scan Unit := do
  if !(← accept text) then failure

def ofOption {α : Type} (a? : Option α) : Scan α := fun cs => a?.map (·, cs)

/-- Hands the rest of the text to a function that takes from its front. -/
def ofFunction {α : Type} (f : List Char → Option (α × List Char)) : Scan α := f

/-- What a scan reads from a text that it takes as a whole. -/
def whole? {α : Type} (s : Scan α) (text : List Char) : Option α :=
  match s text with
  | some (a, []) => some a
  | _ => none

/-- Runs a scan with a number of steps that texts of this length cannot exceed. -/
def bounded {α : Type} (s : Nat → Scan α) : Scan α := fun cs => s (2 * cs.length + 2) cs

def isDigit (c : Char) : Bool := '0' ≤ c && c ≤ '9'

/-- The value of a digit of a base up to sixteen, in either case. -/
def digitValue? (base : Nat) (c : Char) : Option Nat :=
  let value? :=
    if isDigit c then some (c.toNat - 48)
    else if 'a' ≤ c && c ≤ 'f' then some (c.toNat - 87)
    else if 'A' ≤ c && c ≤ 'F' then some (c.toNat - 55)
    else none
  value?.filter (· < base)

def number? (base : Nat) (digits : List Char) : Option Nat :=
  digits.foldlM (fun n c => (digitValue? base c).map (n * base + ·)) 0

/-! ## Decimal numbers -/

def digits : Scan Unit := do
  if (← takeWhile isDigit).isEmpty then failure

def fraction : Scan Unit := do
  if ← accept "." then digits

def exponent : Scan Unit := do
  match ← peek? with
  | some 'e' | some 'E' =>
    let _ ← next
    match ← peek? with
    | some '+' | some '-' =>
      let _ ← next
      digits
    | _ => digits
  | _ => return

/-- Only a single zero begins with zero. -/
def decimal : Scan Unit := do
  match ← takeWhile isDigit with
  | [] => failure
  | '0' :: _ :: _ => failure
  | _ =>
    fraction
    exponent

/-! ## Characters by number -/

/-- The character with the given number, which must not be a surrogate. -/
def character? (n : Nat) : Option Char :=
  if n.isValidChar then some (Char.ofNat n) else none

end Scan

end BinaryXml
