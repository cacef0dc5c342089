import BinaryXml.CharacterEncoding
import BinaryXml.IntegerText
import BinaryXml.TableKind
import BinaryXml.WhiteSpace

/-!
# Configuration

The settings of a codec. They are given as a value, read from a configuration document, or taken
one by one from variables, where a variable without a readable value counts as missing.
-/

namespace BinaryXml

/-- The lengths from `min` on that are less than `max`. -/
structure LengthRange where
  min : Nat := 0
  max : Nat := 32
  deriving DecidableEq

def LengthRange.contains (r : LengthRange) (length : Nat) : Bool :=
  r.min ≤ length && length < r.max

/-- What a reader does with octets of an algorithm or alphabet that it does not know. -/
inductive UnknownPacking
  | fail
  | keep
  deriving DecidableEq

namespace UnknownPacking

def name : UnknownPacking → String
  | fail => "fail"
  | keep => "opaque"

def ofName? (name : String) : Option UnknownPacking :=
  [fail, keep].find? fun policy => policy.name = name

/-- Reads a name whose ASCII letters may be of either case. -/
def parse (text : String) : Except String UnknownPacking :=
  match ofName? text.toLower with
  | some policy => .ok policy
  | none => .error ("unknown representation policy: " ++ text.toLower)

end UnknownPacking

/-- Reads a name whose ASCII letters may be of either case. -/
def CharacterEncoding.parse (text : String) : Except String CharacterEncoding :=
  match ofName? text.toLower with
  | some encoding => .ok encoding
  | none => .error ("unknown character encoding: " ++ text.toLower)

structure Config where
  attributeValues : LengthRange := {}
  characterChunks : LengthRange := {}
  /-- How many octets of text the chunk table of a document may take. -/
  chunkMemoryLimit : Nat := 16 * 1024 * 1024
  characterEncoding : CharacterEncoding := .utf8
  ignoreComments : Bool := false
  ignoreInstructions : Bool := false
  ignoreBlankText : Bool := false
  unknownPacking : UnknownPacking := .fail
  deriving DecidableEq

/-- The languages of configuration documents. -/
inductive DocumentLanguage
  | toml
  | json
  deriving DecidableEq

inductive ConfigError
  | missingFile
  | unreadable (language : DocumentLanguage)
  | vocabulary (cause : VocabularyError)
  | emptyRange (setting : String) (range : LengthRange)
  | missingUri (role : String)

def ConfigError.message : ConfigError → String
  | missingFile => "I/O error: No such file or directory (os error 2)"
  | unreadable .toml => "TOML error: the document does not describe the value"
  | unreadable .json => "JSON error: the document does not describe the value"
  | vocabulary cause => "Vocabulary error: " ++ cause.message
  | emptyRange setting range =>
    s!"Invalid configuration: {setting} limits: min {range.min} exceeds max {range.max}"
  | missingUri role => s!"Invalid configuration: {role} vocabulary has no external URI"

namespace Config

/-- A range may be empty, but its ends may not be out of order. -/
def validate (c : Config) : Except ConfigError Unit :=
  if c.attributeValues.max < c.attributeValues.min then
    .error (.emptyRange "attribute value" c.attributeValues)
  else if c.characterChunks.max < c.characterChunks.min then
    .error (.emptyRange "character chunk" c.characterChunks)
  else .ok ()

def readNumber? (text : String) : Option Nat :=
  (IntegerText.readUnsigned 64 text.toList).toOption

def readSwitch? (text : String) : Option Bool :=
  if text = "true" then some true
  else if text = "false" then some false
  else none

/-- The defaults, changed by the variables that have a readable value. -/
def ofVariables (lookup : String → Option String) : Config :=
  let setting {α : Type} (read? : String → Option α) (name : String) (default : α) : α :=
    ((lookup name).bind fun text => read? (WhiteSpace.trim text)).getD default
  let standard : Config := {}
  { attributeValues :=
      { min := setting readNumber? "INFOSET_ATTRIBUTE_VALUE_MIN" standard.attributeValues.min
        max := setting readNumber? "INFOSET_ATTRIBUTE_VALUE_MAX" standard.attributeValues.max }
    characterChunks :=
      { min := setting readNumber? "INFOSET_CHUNK_MIN" standard.characterChunks.min
        max := setting readNumber? "INFOSET_CHUNK_MAX" standard.characterChunks.max }
    chunkMemoryLimit :=
      setting readNumber? "INFOSET_CHUNK_MEMORY_LIMIT" standard.chunkMemoryLimit
    characterEncoding := setting (CharacterEncoding.parse · |>.toOption)
      "INFOSET_CHARACTER_ENCODING" standard.characterEncoding
    ignoreComments := setting readSwitch? "INFOSET_IGNORE_COMMENTS" standard.ignoreComments
    ignoreInstructions :=
      setting readSwitch? "INFOSET_IGNORE_PROCESSING_INSTRUCTIONS" standard.ignoreInstructions
    ignoreBlankText :=
      setting readSwitch? "INFOSET_IGNORE_WHITESPACE_TEXT" standard.ignoreBlankText
    unknownPacking := setting (UnknownPacking.parse · |>.toOption)
      "INFOSET_UNKNOWN_REPRESENTATION" standard.unknownPacking }

end Config

end BinaryXml
