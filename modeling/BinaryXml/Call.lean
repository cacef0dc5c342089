import BinaryXml.Event

/-!
# Calls of a writer

A document is written by calls that have to come in turn:

    startDocument initiate
      ( mark [ startDeclarations declare* endDeclarations ] elementName
          [ startAttributes ( attributeName attributeValue )* ] endStartElement
          ( characters | comment | instruction | element )* endElement
      | comment | instruction )*

A writer keeps track of its `Stage` and of the number of open elements; `Call.isAllowed` tells
from these two which calls are in turn, and `Call.stageAfter` what follows.
-/

namespace BinaryXml

/-- How a call gives a name: by its parts, by its index, or by the index of its local part. -/
inductive NameReference
  | named (name : QualifiedName)
  | indexed (index : Nat)
  | localIndexed (nsPrefix namespaceName : String) (index : Nat)
  deriving DecidableEq

inductive Call
  | startDocument (header : DocumentHeader)
  | initiate
  /-- Begins an element whose name is given later. -/
  | mark
  | startDeclarations
  | declare (nsPrefix namespaceName : String)
  | endDeclarations
  | elementName (name : NameReference)
  | startAttributes
  | attributeName (name : NameReference)
  | attributeValue (value : Content)
  | endStartElement
  | characters (content : Content)
  | endElement
  | comment (text : String)
  | instruction (target data : String)
  deriving DecidableEq

inductive Stage
  | idle
  | started
  | content
  | marked
  | declaring
  | declared
  | named
  | attributes
  | value
  | poisoned
  deriving DecidableEq

/-- Element content and the document level are one stage at different depths. -/
def Stage.situation (s : Stage) (depth : Nat) : String :=
  match s with
  | idle => "before the document is started"
  | started => "before low-level writing is initiated"
  | content => if depth = 0 then "at document level" else "in element content"
  | marked => "right after termination and mark"
  | declaring => "inside namespace declarations"
  | declared => "after namespace declarations"
  | named => "after the element name"
  | attributes => "inside attributes"
  | value => "while an attribute value is pending"
  | poisoned => "after an earlier error"

namespace Call

/-- The name of the operation in messages. -/
def operation : Call → String
  | startDocument _ => "start_document"
  | initiate => "initiate_low_level_writing"
  | mark => "termination_and_mark"
  | startDeclarations => "start_namespaces"
  | declare _ _ => "namespace"
  | endDeclarations => "end_namespaces"
  | elementName (.named _) => "start_element"
  | elementName (.indexed _) => "start_element_indexed"
  | elementName (.localIndexed _ _ _) => "start_name_literal"
  | startAttributes => "start_attributes"
  | attributeName (.named _) => "attribute"
  | attributeName (.indexed _) => "attribute_indexed"
  | attributeName (.localIndexed _ _ _) => "start_name_literal"
  | attributeValue (.text _) => "attribute_value"
  | attributeValue (.restricted _ _) => "attribute_value_restricted"
  | attributeValue (.typed _ _) => "attribute_value_typed"
  | attributeValue (.undecoded _ _ _) => "attribute_value_encoded"
  | endStartElement => "end_start_element"
  | characters (.text _) => "text"
  | characters (.restricted _ _) => "restricted_text"
  | characters (.typed _ _) => "typed_content"
  | characters (.undecoded _ _ _) => "encoded_content"
  | endElement => "end_element"
  | comment _ => "comment"
  | instruction _ _ => "processing_instruction"

def isAllowed (stage : Stage) (depth : Nat) : Call → Bool
  | startDocument _ => stage = .idle
  | initiate => stage = .started
  | mark => stage = .content
  | startDeclarations => stage = .marked
  | declare _ _ => stage = .declaring
  | endDeclarations => stage = .declaring
  | elementName _ => stage = .marked || stage = .declared
  | startAttributes => stage = .named
  | attributeName _ => stage = .attributes
  | attributeValue _ => stage = .value
  | endStartElement => stage = .named || stage = .attributes
  | characters _ => stage = .content && 0 < depth
  | endElement => stage = .content && 0 < depth
  | comment _ => stage = .content
  | instruction _ _ => stage = .content

def stageAfter : Call → Stage
  | startDocument _ => .started
  | initiate => .content
  | mark => .marked
  | startDeclarations => .declaring
  | declare _ _ => .declaring
  | endDeclarations => .declared
  | elementName _ => .named
  | startAttributes => .attributes
  | attributeName _ => .value
  | attributeValue _ => .attributes
  | endStartElement => .content
  | characters _ => .content
  | endElement => .content
  | comment _ => .content
  | instruction _ _ => .content

end Call

end BinaryXml
