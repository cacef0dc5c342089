import BinaryXml.Base64
import BinaryXml.BooleanPacking
import BinaryXml.DecimalText
import BinaryXml.TypedValue
import BinaryXml.WhiteSpace

/-!
# Built-in encoding algorithms

Each packs values of one kind into octets, and has a character form of its own. Octets of whole
numbers and patterns are big-endian and of fixed width; character forms of lists are words
separated by single spaces, and are read with any white space between them.
-/

namespace BinaryXml

inductive BuiltinAlgorithm
  | hexadecimal
  | base64
  | short
  | int
  | long
  | boolean
  | float
  | double
  | uuid
  | cdata
  deriving DecidableEq

namespace BuiltinAlgorithm

/-- In the order of their identifiers. -/
def all : List BuiltinAlgorithm :=
  [hexadecimal, base64, short, int, long, boolean, float, double, uuid, cdata]

def ofId? (id : UInt8) : Option BuiltinAlgorithm := all[id.toNat]?

def id : BuiltinAlgorithm → UInt8
  | hexadecimal => 0
  | base64 => 1
  | short => 2
  | int => 3
  | long => 4
  | boolean => 5
  | float => 6
  | double => 7
  | uuid => 8
  | cdata => 9

def name : BuiltinAlgorithm → String
  | hexadecimal => "hexadecimal"
  | base64 => "base64"
  | short => "short"
  | int => "int"
  | long => "long"
  | boolean => "boolean"
  | float => "float"
  | double => "double"
  | uuid => "uuid"
  | cdata => "cdata"

/-! ## Octets -/

def encode (b : BuiltinAlgorithm) (v : TypedValue) : Except AlgorithmError Octets :=
  match b, v with
  | hexadecimal, .octets os | base64, .octets os => .ok os
  | short, .shorts xs => .ok (xs.flatMap fun x => bigEndian 2 x.toUInt16.toNat)
  | int, .ints xs => .ok (xs.flatMap fun x => bigEndian 4 x.toUInt32.toNat)
  | long, .longs xs => .ok (xs.flatMap fun x => bigEndian 8 x.toUInt64.toNat)
  | boolean, .booleans xs => .ok (BooleanPacking.pack xs)
  | float, .floats xs => .ok (xs.flatMap fun x => bigEndian 4 x.toNat)
  | double, .doubles xs => .ok (xs.flatMap fun x => bigEndian 8 x.toNat)
  | uuid, .uuids xs => .ok (xs.flatMap Uuid.toOctets)
  | cdata, .text s => .ok (Utf8.encode s)
  | _, _ => .error (.unsupportedValue b.name v.kind)

/-- Consecutive groups of `width` octets; a shorter rest is dropped. -/
def groups (width : Nat) (octets : Octets) : List Octets :=
  if 0 < width ∧ width ≤ octets.length then
    octets.take width :: groups width (octets.drop width)
  else []
termination_by octets.length
decreasing_by simp only [List.length_drop]; omega

def fixedWidth {α : Type} (b : BuiltinAlgorithm) (width : Nat) (read : Octets → α)
    (octets : Octets) : Except AlgorithmError (List α) :=
  if octets.length % width = 0 then .ok ((groups width octets).map read)
  else .error (.invalidLength b.name octets.length width)

def decode (b : BuiltinAlgorithm) (os : Octets) : Except AlgorithmError TypedValue :=
  match b with
  | hexadecimal | base64 => .ok (.octets os)
  | short => (b.fixedWidth 2 (fun g => (UInt16.ofNat (ofBigEndian g)).toInt16) os).map .shorts
  | int => (b.fixedWidth 4 (fun g => (UInt32.ofNat (ofBigEndian g)).toInt32) os).map .ints
  | long => (b.fixedWidth 8 (fun g => (UInt64.ofNat (ofBigEndian g)).toInt64) os).map .longs
  | boolean =>
    match BooleanPacking.unpack os with
    | .ok xs => .ok (.booleans xs)
    | .error reason => .error (.invalidOctets b.name reason)
  | float => (b.fixedWidth 4 (fun g => UInt32.ofNat (ofBigEndian g)) os).map .floats
  | double => (b.fixedWidth 8 (fun g => UInt64.ofNat (ofBigEndian g)) os).map .doubles
  | uuid => (b.fixedWidth 16 Uuid.ofOctets os).map .uuids
  | cdata =>
    match Utf8.decode os with
    | .ok s => .ok (.text s)
    | .error failure => .error (.invalidOctets b.name failure.message)

/-! ## Character forms -/

def joined {α : Type} (show1 : α → String) (xs : List α) : String :=
  String.intercalate " " (xs.map show1)

def booleanText (x : Bool) : String := if x then "true" else "false"

def toText (b : BuiltinAlgorithm) (v : TypedValue) : Except AlgorithmError String :=
  match b, v with
  | hexadecimal, .octets os => .ok (Hexadecimal.upper os)
  | base64, .octets os => .ok (Base64.encode os)
  | short, .shorts xs => .ok (joined (fun x => toString x.toInt) xs)
  | int, .ints xs => .ok (joined (fun x => toString x.toInt) xs)
  | long, .longs xs => .ok (joined (fun x => toString x.toInt) xs)
  | boolean, .booleans xs => .ok (joined booleanText xs)
  | float, .floats xs => .ok (joined (fun x => binary32.text x.toNat) xs)
  | double, .doubles xs => .ok (joined (fun x => binary64.text x.toNat) xs)
  | uuid, .uuids xs => .ok (joined Uuid.text xs)
  | cdata, .text s => .ok s
  | _, _ => .error (.unsupportedValue b.name v.kind)

/-- The words of a text, each read by `read`, whose failure gives a reason or none. -/
def readWords {α : Type} (b : BuiltinAlgorithm) (read : List Char → Except (Option String) α)
    (text : String) : Except AlgorithmError (List α) :=
  (WhiteSpace.words text).mapM fun word =>
    match read word with
    | .ok x => .ok x
    | .error reason? =>
      let quoted := QuotedText.quoteText (String.ofList word)
      .error (.invalidText b.name (some (match reason? with
        | some reason => quoted ++ ": " ++ reason
        | none => quoted)))

def readInteger (bits : Nat) (word : List Char) : Except (Option String) Int :=
  (IntegerText.readSigned bits word).mapError fun failure => some failure.message

def readBoolean (word : List Char) : Except (Option String) Bool :=
  let text := String.ofList word
  if text = "true" || text = "1" then .ok true
  else if text = "false" || text = "0" then .ok false
  else .error (some "expected true, false, 1 or 0")

/-- Every number is read as a double. -/
def readDouble (reason : String) (word : List Char) : Except (Option String) Nat :=
  match binary64.read? word with
  | some bits => .ok bits
  | none => .error (some reason)

def readFloat (word : List Char) : Except (Option String) Nat :=
  (readDouble "invalid float" word).map (binary64.convert binary32)

def readUuid (word : List Char) : Except (Option String) Uuid :=
  match Uuid.read? word with
  | some u => .ok u
  | none => .error none

def ofText (b : BuiltinAlgorithm) (text : String) : Except AlgorithmError TypedValue :=
  match b with
  | hexadecimal =>
    match Hexadecimal.read (Utf8.encode (WhiteSpace.trim text)) with
    | .ok os => .ok (.octets os)
    | .error failure => .error (.invalidText b.name (some failure.message))
  | base64 =>
    match Base64.decode? (WhiteSpace.trim text).toList with
    | some os => .ok (.octets os)
    | none => .error (.invalidText b.name none)
  | short => (b.readWords (readInteger 16) text).map fun xs => .shorts (xs.map Int16.ofInt)
  | int => (b.readWords (readInteger 32) text).map fun xs => .ints (xs.map Int32.ofInt)
  | long => (b.readWords (readInteger 64) text).map fun xs => .longs (xs.map Int64.ofInt)
  | boolean => (b.readWords readBoolean text).map .booleans
  | float => (b.readWords readFloat text).map fun xs => .floats (xs.map UInt32.ofNat)
  | double =>
    (b.readWords (readDouble "invalid double") text).map fun xs => .doubles (xs.map UInt64.ofNat)
  | uuid => (b.readWords readUuid text).map .uuids
  | cdata => .ok (.text text)

end BuiltinAlgorithm

end BinaryXml
