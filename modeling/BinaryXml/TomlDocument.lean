import BinaryXml.TomlRecord
import BinaryXml.TomlScalar
import BinaryXml.TomlText

/-!
# TOML documents

A document is a list of statements: headings, which choose a record, and fields, which are added
to the record chosen last.
-/

namespace BinaryXml.TomlDocument

open Scan TomlRecord TomlScalar TomlText

/-! ## Keys -/

def isKeyCharacter (c : Char) : Bool :=
  isDigit c || ('a' ≤ c && c ≤ 'z') || ('A' ≤ c && c ≤ 'Z') || c = '_' || c = '-'

def simpleKey : Scan String := do
  match ← peek? with
  | some '"' | some '\'' => text false
  | _ =>
    match ← takeWhile isKeyCharacter with
    | [] => failure
    | cs => return String.ofList cs

/-- Parts with dots between them, at most as many as told: those before the last, and the last. -/
def parts : Nat → Scan (List String × String)
  | 0 => failure
  | limit + 1 => do
    blank
    let first ← simpleKey
    blank
    if ← accept "." then
      let (path, key) ← parts limit
      return (first :: path, key)
    else return ([], first)

/-- A key has at most 80 parts, and its path may lead through as many records. -/
def dottedKey : Scan (List String × String) := parts 80

/-! ## Values -/

/-- Lists and records stand at most this deep in each other. -/
def depthLimit : Nat := 80

mutual

/-- `room` tells how much deeper lists and records may stand in the value. -/
def value (room : Nat) : Nat → Scan Datum
  | 0 => failure
  | fuel + 1 => do
    match ← peek? with
    | some '"' | some '\'' => .text <$> text true
    | some '[' =>
      let _ ← next
      if room = 0 then failure
      .list false <$> items (room - 1) fuel
    | some '{' =>
      let _ ← next
      if room = 0 then failure
      .record .closed <$> members (room - 1) [] fuel
    | _ => scalar

/-- The items up to the closing bracket. A comma may come after the last. -/
def items (room : Nat) : Nat → Scan (List Datum)
  | 0 => failure
  | fuel + 1 => do
    skipFiller
    if ← accept "]" then return []
    let first ← value room fuel
    skipFiller
    if ← accept "," then
      let rest ← items room fuel
      return first :: rest
    else
      expect "]"
      return [first]

/-- The fields up to the closing brace, behind those given before. Lines may end anywhere but
within a key. -/
def members (room : Nat) (fields : Fields) : Nat → Scan Fields
  | 0 => failure
  | fuel + 1 => do
    skipFiller
    if ← accept "\x7d" then return fields
    let (path, key) ← dottedKey
    skipFiller
    expect "="
    skipFiller
    let d ← value room fuel
    let (_, fields) ← ofOption (addField path key d .headed fields)
    skipFiller
    if ← accept "," then members room fields fuel
    else
      expect "\x7d"
      return fields

end

/-! ## Statements -/

/-- The fields of a document so far, and the path of the record chosen last. -/
structure Progress where
  fields : Fields := []
  chosen : List String := []

def changed (chosen : List String) : Option (RecordForm × Fields) → Scan Progress
  | some (_, fields) => return { fields, chosen }
  | none => failure

def statement (p : Progress) : Scan Progress := do
  if ← accept "[[" then
    let (path, key) ← dottedKey
    expect "]]"
    lineEnd
    changed (path ++ [key]) (addItem path key .headed p.fields)
  else if ← accept "[" then
    let (path, key) ← dottedKey
    expect "]"
    lineEnd
    changed (path ++ [key]) (addHeading path key .headed p.fields)
  else
    let (path, key) ← dottedKey
    expect "="
    blank
    let d ← bounded (value depthLimit)
    lineEnd
    changed p.chosen (update false (addField path key d) p.chosen .headed p.fields)

def statements (p : Progress) : Nat → Scan Progress
  | 0 => failure
  | fuel + 1 => do
    skipFiller
    match ← peek? with
    | none => return p
    | some _ =>
      let p ← statement p
      statements p fuel

def document : Scan Datum := do
  let _ ← accept "\ufeff"
  let p ← bounded (statements {})
  return .record .closed p.fields

def read? (source : String) : Option Datum := document.whole? source.toList

end BinaryXml.TomlDocument
