/-!
# What configuration documents describe

A document describes a tree of texts, numbers, lists and records, whatever its language. Records
may be given in pieces, so a record knows whether later lines may still add to it.
-/

namespace BinaryXml

inductive RecordForm
  /-- Given as a whole. -/
  | closed
  /-- Given by a heading of its own. -/
  | headed
  /-- Passed through on the way to a heading. -/
  | implied
  /-- Passed through by the key of a field. -/
  | dotted
  deriving DecidableEq

inductive Datum
  | null
  | boolean (b : Bool)
  | integer (n : Int)
  | text (s : String)
  /-- A date, a time or both. -/
  | moment
  /-- A number that is well written but has no value. -/
  | unreadable
  /-- Something that no setting is given by. -/
  | other
  /-- Headings may add to an open list. -/
  | list (isOpen : Bool) (items : List Datum)
  /-- A key that is no text stays absent. -/
  | record (form : RecordForm) (fields : List (Option String × Datum))

namespace Datum

def asText? : Datum → Option String
  | text s => some s
  | _ => none

def asBoolean? : Datum → Option Bool
  | boolean b => some b
  | _ => none

/-- Numbers of settings fit 64 bits. -/
def asNumber? : Datum → Option Nat
  | integer (.ofNat n) => if n < UInt64.size then some n else none
  | _ => none

def asList? {α : Type} (read? : Datum → Option α) : Datum → Option (List α)
  | list _ items => items.mapM read?
  | _ => none

/-- A name, or a record with an empty field of that name alone. -/
def asName? : Datum → Option String
  | text s => some s
  | record _ [(name?, record _ [])] => name?
  | record _ [(name?, list _ [])] => name?
  | _ => none

mutual

/-- Whether every number in it has a value. -/
def isReadable : Datum → Bool
  | unreadable => false
  | list _ items => readableItems items
  | record _ fields => readableFields fields
  | _ => true

def readableItems : List Datum → Bool
  | [] => true
  | d :: ds => isReadable d && readableItems ds

def readableFields : List (Option String × Datum) → Bool
  | [] => true
  | (_, d) :: fields => isReadable d && readableFields fields

end

/-- The fields of a structure, given by their names or in their order. Other fields are ignored if
they can be read, but no known one may be there twice. Surplus items are ignored in any case, and
a date or a time counts as other fields alone. -/
def fields? (names : List String) (allowSurplus : Bool) : Datum → Option (List (String × Datum))
  | record _ fields => do
    let named ← fields.mapM fun (name?, d) => name?.map (·, d)
    if (named.all fun (name, d) => names.contains name || d.isReadable) &&
        names.all fun name => (named.filter (·.1 = name)).length ≤ 1 then some named
    else none
  | list _ items =>
    if allowSurplus || items.length ≤ names.length then some (names.zip items) else none
  | moment => some []
  | _ => none

/-- A field that is missing has its default. -/
def field? {α : Type} (fields : List (String × Datum)) (name : String) (read? : Datum → Option α)
    (default : α) : Option α :=
  match fields.lookup name with
  | some d => read? d
  | none => some default

end Datum

end BinaryXml
