import BinaryXml.Datum

/-!
# Records given in pieces

A TOML document may come back to a record, but nothing in it may be given twice, and no record may
be changed in another way than it was begun.
-/

namespace BinaryXml.TomlRecord

abbrev Fields := List (Option String × Datum)

def replace (key : String) (d : Datum) : Fields → Fields
  | [] => []
  | (key', d') :: fields =>
    if key' = some key then (key', d) :: fields else (key', d') :: replace key d fields

/-- Changes the record at the end of a path, whose records are made where they are missing. The
last record of an open list stands for the list. -/
def update (dotted : Bool) (change : RecordForm → Fields → Option (RecordForm × Fields)) :
    List String → RecordForm → Fields → Option (RecordForm × Fields)
  | [], form, fields => change form fields
  | key :: path, form, fields =>
    match fields.lookup (some key) with
    | none => do
      let (inner, sub) ← update dotted change path (if dotted then .dotted else .implied) []
      return (form, fields ++ [(some key, .record inner sub)])
    | some (.record inner sub) =>
      if inner = .closed || (dotted && inner = .headed) then none
      else do
        let (inner, sub) ← update dotted change path inner sub
        return (form, replace key (.record inner sub) fields)
    | some (.list true items) =>
      match items.getLast? with
      | some (.record inner sub) => do
        let (inner, sub) ← update dotted change path inner sub
        return (form, replace key (.list true (items.dropLast ++ [.record inner sub])) fields)
      | _ => none
    | some _ => none

/-- Adds a field to a record that is given by its fields. -/
def addField (path : List String) (key : String) (d : Datum) (form : RecordForm)
    (fields : Fields) : Option (RecordForm × Fields) :=
  update true (fun form fields =>
    if (!path.isEmpty && form ≠ .dotted) || (fields.lookup (some key)).isSome then none
    else some (form, fields ++ [(some key, d)])) path form fields

/-- A heading gives a record once. -/
def addHeading (path : List String) (key : String) (form : RecordForm) (fields : Fields) :
    Option (RecordForm × Fields) :=
  update false (fun form fields =>
    match fields.lookup (some key) with
    | none => some (form, fields ++ [(some key, .record .headed [])])
    | some (.record .implied sub) => some (form, replace key (.record .headed sub) fields)
    | some _ => none) path form fields

/-- A heading in two brackets begins another record of a list. -/
def addItem (path : List String) (key : String) (form : RecordForm) (fields : Fields) :
    Option (RecordForm × Fields) :=
  update false (fun form fields =>
    match fields.lookup (some key) with
    | none => some (form, fields ++ [(some key, .list true [.record .headed []])])
    | some (.list true items) =>
      some (form, replace key (.list true (items ++ [.record .headed []])) fields)
    | some _ => none) path form fields

end BinaryXml.TomlRecord
