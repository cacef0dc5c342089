import BinaryXml.Octets
import BinaryXml.Uuid

/-!
# Typed values

What an encoding algorithm packs into octets. Floating-point numbers are bit patterns, so that
every pattern survives.
-/

namespace BinaryXml

inductive TypedValue
  | octets (os : Octets)
  | shorts (xs : List Int16)
  | ints (xs : List Int32)
  | longs (xs : List Int64)
  | booleans (xs : List Bool)
  | floats (patterns : List UInt32)
  | doubles (patterns : List UInt64)
  | uuids (xs : List Uuid)
  | text (s : String)
  deriving DecidableEq

def TypedValue.kind : TypedValue → String
  | octets _ => "octets"
  | shorts _ => "short array"
  | ints _ => "int array"
  | longs _ => "long array"
  | booleans _ => "boolean array"
  | floats _ => "float array"
  | doubles _ => "double array"
  | uuids _ => "uuid array"
  | text _ => "text"

inductive AlgorithmError
  | unknownAlgorithm (id : UInt8)
  | reservedIdentifier (id : UInt8)
  | duplicateRegistration (id : UInt8)
  | duplicateUri (uri : String)
  | unsupportedValue (algorithm kind : String)
  | invalidLength (algorithm : String) (length unit : Nat)
  | invalidOctets (algorithm reason : String)
  | invalidText (algorithm : String) (reason? : Option String)

def AlgorithmError.message : AlgorithmError → String
  | unknownAlgorithm id => s!"Unknown encoding algorithm: {id}"
  | reservedIdentifier id => s!"Encoding algorithm identifier {id} is reserved (0-31)"
  | duplicateRegistration id => s!"Encoding algorithm identifier {id} is already registered"
  | duplicateUri uri => "Encoding algorithm URI already registered: " ++ uri
  | unsupportedValue algorithm kind => s!"{algorithm} algorithm cannot encode a {kind} value"
  | invalidLength algorithm length unit =>
    s!"{algorithm} algorithm: {length} octets is not a multiple of {unit}"
  | invalidOctets algorithm reason => s!"{algorithm} algorithm: invalid octets: {reason}"
  | invalidText algorithm none => s!"{algorithm} algorithm: invalid character form"
  | invalidText algorithm (some reason) =>
    s!"{algorithm} algorithm: invalid character form: {reason}"

end BinaryXml
