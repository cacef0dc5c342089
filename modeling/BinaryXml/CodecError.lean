import BinaryXml.Alphabet
import BinaryXml.Config
import BinaryXml.FormatError
import BinaryXml.NamespaceScopes
import BinaryXml.TypedValue

/-!
# Errors of a codec

Whatever can go wrong while a document is written or read, sorted by its cause.
-/

namespace BinaryXml

/-- Calls of a writer that are out of turn. -/
inductive ProtocolError
  | unexpectedCall (operation situation : String)
  | poisoned
  | unclosedElements (count : Nat)

def ProtocolError.message : ProtocolError → String
  | unexpectedCall operation situation => s!"{operation} is not allowed {situation}"
  | poisoned => "Writer is unusable after an earlier error"
  | unclosedElements count => s!"Document ended with {count} open elements"

inductive CodecError
  | protocol (cause : ProtocolError)
  | vocabulary (cause : VocabularyError)
  | algorithm (cause : AlgorithmError)
  | alphabet (cause : AlphabetError)
  | namespaces (cause : NamespaceError)
  | format (cause : FormatError)
  | config (cause : ConfigError)
  /-- A failure of the place that octets are written to. -/
  | sink (reason : String)

namespace CodecError

def message : CodecError → String
  | protocol cause => "Protocol error: " ++ cause.message
  | vocabulary cause => "Vocabulary error: " ++ cause.message
  | algorithm cause => "Algorithm error: " ++ cause.message
  | alphabet cause => "Alphabet error: " ++ cause.message
  | namespaces cause => "Namespace error: " ++ cause.message
  | format cause => "Format error: " ++ cause.message
  | config cause => "Configuration error: " ++ cause.message
  | sink reason => "I/O error: " ++ reason

/-- Whether the same item may be tried again in another way. -/
def isRecoverable : CodecError → Bool
  | alphabet (.characterNotInAlphabet _ _) => true
  | alphabet (.unknownAlphabet _) => true
  | algorithm (.unknownAlgorithm _) => true
  | vocabulary (.duplicateEntry _ _) => true
  | _ => false

end CodecError

end BinaryXml
