import BinaryXml.Config
import BinaryXml.JsonDocument
import BinaryXml.SharedVocabulary
import BinaryXml.TomlDocument

/-!
# Configuration and vocabularies in documents

Settings are read from TOML, definitions of vocabularies from TOML or JSON. Whatever a document
leaves out has its default, and whatever it says besides is ignored.
-/

namespace BinaryXml

namespace DocumentLanguage

def read? : DocumentLanguage → String → Option Datum
  | toml => TomlDocument.read?
  | json => JsonDocument.read?

/-- Whether a list may give more than the fields of a structure. -/
def allowsSurplus : DocumentLanguage → Bool
  | toml => true
  | json => false

/-- A value from the document with the given text. -/
def load {α : Type} (language : DocumentLanguage) (ofDatum? : Datum → Option α)
    (source : String) : Except ConfigError α :=
  match (language.read? source).bind ofDatum? with
  | some a => .ok a
  | none => .error (.unreadable language)

end DocumentLanguage

/-- A file by its name, and its text if it exists. -/
structure SourceFile where
  name : String
  source? : Option String

namespace SourceFile

/-- The part of the name behind its last dot, which must not begin the name. -/
def extension? (f : SourceFile) : Option String :=
  let (after, before) := f.name.toList.reverse.span (· ≠ '.')
  match before with
  | '.' :: _ :: _ => some (String.ofList after.reverse)
  | _ => none

def source (f : SourceFile) : Except ConfigError String :=
  match f.source? with
  | some source => .ok source
  | none => .error .missingFile

end SourceFile

def LengthRange.ofDatum? (d : Datum) : Option LengthRange := do
  let fields ← d.fields? ["min", "max"] true
  let standard : LengthRange := {}
  return {
    min := ← Datum.field? fields "min" Datum.asNumber? standard.min
    max := ← Datum.field? fields "max" Datum.asNumber? standard.max }

namespace Config

def ofDatum? (d : Datum) : Option Config := do
  let names := ["attribute_values", "character_chunks", "chunk_memory_limit",
    "character_encoding", "ignore_comments", "ignore_processing_instructions",
    "ignore_whitespace_text", "unknown_representation"]
  let fields ← d.fields? names true
  let field {α : Type} := @Datum.field? α fields
  let standard : Config := {}
  return {
    attributeValues :=
      ← field "attribute_values" LengthRange.ofDatum? standard.attributeValues
    characterChunks :=
      ← field "character_chunks" LengthRange.ofDatum? standard.characterChunks
    chunkMemoryLimit := ← field "chunk_memory_limit" Datum.asNumber? standard.chunkMemoryLimit
    characterEncoding := ← field "character_encoding"
      (fun d => d.asName?.bind CharacterEncoding.ofName?) standard.characterEncoding
    ignoreComments := ← field "ignore_comments" Datum.asBoolean? standard.ignoreComments
    ignoreInstructions :=
      ← field "ignore_processing_instructions" Datum.asBoolean? standard.ignoreInstructions
    ignoreBlankText :=
      ← field "ignore_whitespace_text" Datum.asBoolean? standard.ignoreBlankText
    unknownPacking := ← field "unknown_representation"
      (fun d => d.asName?.bind UnknownPacking.ofName?) standard.unknownPacking }

/-- The settings of a TOML document, which have to be valid. -/
def ofToml (source : String) : Except ConfigError Config := do
  let c ← DocumentLanguage.toml.load ofDatum? source
  c.validate
  return c

def ofFile (f : SourceFile) : Except ConfigError Config := do
  ofToml (← f.source)

end Config

def QualifiedName.ofDatum? (surplus : Bool) (d : Datum) : Option QualifiedName := do
  let fields ← d.fields? ["prefix", "namespace", "local"] surplus
  let localName ← fields.lookup "local"
  return {
    nsPrefix := ← Datum.field? fields "prefix" Datum.asText? ""
    namespaceName := ← Datum.field? fields "namespace" Datum.asText? ""
    localName := ← localName.asText? }

namespace VocabularyDefinition

/-- Null stands for a missing URI. -/
def optionalText? : Datum → Option (Option String)
  | .null => some none
  | d => d.asText?.map some

def ofDatum? (surplus : Bool) (d : Datum) : Option VocabularyDefinition := do
  let names := ["external_uri", "prefixes", "namespace_names", "local_names", "other_ncnames",
    "other_uris", "attribute_values", "character_content_chunks", "other_strings",
    "element_names", "attribute_names"]
  let fields ← d.fields? names surplus
  let strings (name : String) : Option (List String) :=
    Datum.field? fields name (·.asList? Datum.asText?) []
  let qualified (name : String) : Option (List QualifiedName) :=
    Datum.field? fields name (·.asList? (QualifiedName.ofDatum? surplus)) []
  return {
    externalUri := ← Datum.field? fields "external_uri" optionalText? none
    prefixes := ← strings "prefixes"
    namespaceNames := ← strings "namespace_names"
    localNames := ← strings "local_names"
    otherNcNames := ← strings "other_ncnames"
    otherUris := ← strings "other_uris"
    attributeValues := ← strings "attribute_values"
    characterChunks := ← strings "character_content_chunks"
    otherStrings := ← strings "other_strings"
    elementNames := ← qualified "element_names"
    attributeNames := ← qualified "attribute_names" }

def ofDocument (language : DocumentLanguage) (source : String) :
    Except ConfigError VocabularyDefinition :=
  language.load (ofDatum? language.allowsSurplus) source

/-- Files are in TOML unless their name says otherwise. -/
def ofFile (f : SourceFile) : Except ConfigError VocabularyDefinition := do
  let language : DocumentLanguage := if f.extension? = some "json" then .json else .toml
  ofDocument language (← f.source)

end VocabularyDefinition

end BinaryXml
