import BinaryXml.Datum
import BinaryXml.Scan

/-!
# JSON documents

The strict grammar, without additions. A text may name a surrogate that has no partner; it
then stands for no text, which matters only where a text is asked for.
-/

namespace BinaryXml.JsonDocument

open Scan

def isBlank (c : Char) : Bool := c = ' ' || c = '\t' || c = '\n' || c = '\r'

def blank : Scan Unit := skipWhile isBlank

/-! ## Texts -/

def shortEscape? : Char → Option Char
  | '"' => some '"'
  | '\\' => some '\\'
  | '/' => some '/'
  | 'b' => some '\x08'
  | 'f' => some '\x0c'
  | 'n' => some '\n'
  | 'r' => some '\r'
  | 't' => some '\t'
  | _ => none

/-- The numbers of the characters up to the closing quote. Escapes give UTF-16 units. -/
def units : List Char → Option (List Nat × List Char)
  | [] => none
  | '"' :: cs => some ([], cs)
  | '\\' :: 'u' :: a :: b :: c :: d :: cs => do
    let unit ← number? 16 [a, b, c, d]
    let (rest, cs) ← units cs
    return (unit :: rest, cs)
  | '\\' :: c :: cs => do
    let c ← shortEscape? c
    let (rest, cs) ← units cs
    return (c.toNat :: rest, cs)
  | c :: cs =>
    if c.toNat < 0x20 || c = '\\' then none
    else do
      let (rest, cs) ← units cs
      return (c.toNat :: rest, cs)

def isLead (n : Nat) : Bool := 0xD800 ≤ n && n < 0xDC00

def isTrail (n : Nat) : Bool := 0xDC00 ≤ n && n < 0xE000

def characters? : List Nat → Option (List Char)
  | [] => some []
  | [n] => (character? n).map ([·])
  | n :: m :: rest =>
    if isLead n && isTrail m then
      (characters? rest).map (Char.ofNat (0x10000 + (n - 0xD800) * 0x400 + (m - 0xDC00)) :: ·)
    else do
      let c ← character? n
      let cs ← characters? (m :: rest)
      return c :: cs

/-- The text behind an opening quote. -/
def text : Scan (Option String) := do
  let ns ← ofFunction units
  return (characters? ns).map String.ofList

/-! ## Values -/

mutual

def value : Nat → Scan Datum
  | 0 => failure
  | fuel + 1 => do
    blank
    match ← peek? with
    | none => failure
    | some '"' =>
      let _ ← next
      match ← text with
      | some s => return .text s
      | none => return .other
    | some '[' =>
      let _ ← next
      blank
      if ← accept "]" then return .list false []
      else .list false <$> items fuel
    | some '{' =>
      let _ ← next
      blank
      if ← accept "\x7d" then return .record .closed []
      else .record .closed <$> members fuel
    | some 'n' => do
      expect "null"
      return .null
    | some 't' => do
      expect "true"
      return .boolean true
    | some 'f' => do
      expect "false"
      return .boolean false
    | some _ => do
      let _ ← accept "-"
      decimal
      return .other

/-- One item or more, up to the closing bracket. -/
def items : Nat → Scan (List Datum)
  | 0 => failure
  | fuel + 1 => do
    let first ← value fuel
    blank
    if ← accept "," then
      let rest ← items fuel
      return first :: rest
    else
      expect "]"
      return [first]

/-- One member or more, up to the closing brace. -/
def members : Nat → Scan (List (Option String × Datum))
  | 0 => failure
  | fuel + 1 => do
    blank
    expect "\""
    let key ← text
    blank
    expect ":"
    let first ← value fuel
    blank
    if ← accept "," then
      let rest ← members fuel
      return (key, first) :: rest
    else
      expect "\x7d"
      return [(key, first)]

end

def document : Scan Datum := do
  let d ← bounded value
  blank
  return d

def read? (source : String) : Option Datum := document.whole? source.toList

end BinaryXml.JsonDocument
