import BinaryXml.BuiltinAlgorithm

/-!
# The encoding algorithms of a codec

Identifiers below 32 belong to the format, which fills the first ten of them; others are for
registered algorithms, each under an identifier and a URI of its own.
-/

namespace BinaryXml

structure Algorithm where
  /-- The name of a built-in algorithm, the URI of any other. -/
  uri : String
  encode : TypedValue → Except AlgorithmError Octets
  decode : Octets → Except AlgorithmError TypedValue
  toText : TypedValue → Except AlgorithmError String :=
    fun v => .error (.unsupportedValue uri v.kind)

def BuiltinAlgorithm.algorithm (b : BuiltinAlgorithm) : Algorithm where
  uri := b.name
  encode := b.encode
  decode := b.decode
  toText := b.toText

structure AlgorithmRegistry where
  registered : List (UInt8 × Algorithm) := []

namespace AlgorithmRegistry

def find? (r : AlgorithmRegistry) (id : UInt8) : Option Algorithm :=
  match BuiltinAlgorithm.ofId? id with
  | some b => some b.algorithm
  | none => r.registered.lookup id

def get (r : AlgorithmRegistry) (id : UInt8) : Except AlgorithmError Algorithm :=
  match r.find? id with
  | some algorithm => .ok algorithm
  | none => .error (.unknownAlgorithm id)

def isRegistered (r : AlgorithmRegistry) (id : UInt8) : Bool :=
  id ≤ 9 || (r.registered.lookup id).isSome

def idOfUri? (r : AlgorithmRegistry) (uri : String) : Option UInt8 :=
  (r.registered.find? fun entry => entry.2.uri = uri).map (·.1)

def register (r : AlgorithmRegistry) (id : UInt8) (algorithm : Algorithm) :
    Except AlgorithmError AlgorithmRegistry :=
  if id < 32 then .error (.reservedIdentifier id)
  else if (r.registered.lookup id).isSome then .error (.duplicateRegistration id)
  else if (r.idOfUri? algorithm.uri).isSome then .error (.duplicateUri algorithm.uri)
  else .ok ⟨(id, algorithm) :: r.registered⟩

def encode (r : AlgorithmRegistry) (id : UInt8) (v : TypedValue) :
    Except AlgorithmError Octets := do
  (← r.get id).encode v

def decode (r : AlgorithmRegistry) (id : UInt8) (octets : Octets) :
    Except AlgorithmError TypedValue := do
  (← r.get id).decode octets

end AlgorithmRegistry

end BinaryXml
