import BinaryXml.Writer

/-!
# Encoding events

An encoder makes the calls that write an event. It keeps the namespace declarations of the open
elements, so that a name may be given by its prefix alone. The scope of an element is opened
before anything of the element is looked at, and stays open if the element is refused.
-/

namespace BinaryXml

namespace NamespaceScopes

/-- A name with a prefix and no namespace takes the namespace that the prefix is bound to; an
element name without either takes the default namespace. -/
def resolveName (s : NamespaceScopes) (kind : NameKind) (name : QualifiedName) :
    Except NamespaceError QualifiedName :=
  if name.hasNamespace then .ok name
  else if name.hasPrefix then
    let uri := s.uriOf name.nsPrefix
    if uri.isEmpty then .error (.unboundPrefix name.nsPrefix)
    else .ok { name with namespaceName := uri }
  else
    match kind with
    | .element => .ok { name with namespaceName := s.uriOf "" }
    | .attribute => .ok name

end NamespaceScopes

structure Encoder where
  writer : Writer
  scopes : NamespaceScopes := .initial
  /-- Whether the end of the document was among the events. -/
  ended : Bool := false

abbrev Encoding := EStateM CodecError Encoder

def Codec.encoder (c : Codec) (sink : Sink) : Encoder where
  writer := c.writer sink

namespace Encoder

def writing {α : Type} (p : Writing α) : Encoding α
  | ⟨writer, scopes, ended⟩ =>
    match p writer with
    | .ok a writer => .ok a ⟨writer, scopes, ended⟩
    | .error cause writer => .error cause ⟨writer, scopes, ended⟩

def scoping (f : NamespaceScopes → Except NamespaceError NamespaceScopes) : Encoding Unit :=
  fun e =>
    match f e.scopes with
    | .ok scopes => .ok () { e with scopes }
    | .error cause => .error (.namespaces cause) e

def call (c : Codec) (call : Call) : Encoding Unit := do
  let _ ← writing (Writer.perform c call)

/-- The name that is written for a name in an event. -/
def resolve (kind : NameKind) (name : QualifiedName) : Encoding QualifiedName := fun e =>
  match e.scopes.resolveName kind name with
  | .ok name => .ok name e
  | .error cause => .error (.namespaces cause) e

/-- Whether text that an alphabet cannot pack is written plainly. -/
def allowsPlainText : CodecError → Bool
  | .alphabet (.characterNotInAlphabet _ _) => true
  | .alphabet (.unknownAlphabet _) => true
  | _ => false

/-- Text over a restricted alphabet is written plainly if the alphabet cannot pack it. -/
def callWith (c : Codec) (toCall : Content → Call) (content : Content) : Encoding Unit :=
  match content with
  | .restricted _ characters => fun e =>
    match call c (toCall content) e with
    | .ok () e => .ok () e
    | .error cause e =>
      if allowsPlainText cause then call c (toCall (.text characters)) e else .error cause e
  | _ => call c (toCall content)

def writeAttribute (c : Codec) (a : Attribute) : Encoding Unit := do
  let name ← resolve .attribute a.name
  call c (.attributeName (.named name))
  callWith c .attributeValue a.value

def writeDeclarations (c : Codec) (declarations : List NamespaceDeclaration) : Encoding Unit := do
  call c .startDeclarations
  declarations.forM fun d => call c (.declare d.nsPrefix d.namespaceName)
  call c .endDeclarations

def writeAttributes (c : Codec) (attributes : List Attribute) : Encoding Unit := do
  call c .startAttributes
  attributes.forM (writeAttribute c)

/-- Opens the scope of an element. -/
def openScope (declarations : List NamespaceDeclaration) : Encoding Unit := do
  scoping fun s => .ok s.push
  declarations.forM fun d => scoping (·.declare d.nsPrefix d.namespaceName)

/-- Writes what the start of an element contains; its own name is resolved. -/
def writeParts (c : Codec) (name : QualifiedName) (declarations : List NamespaceDeclaration)
    (attributes : List Attribute) : Encoding Unit := do
  if !declarations.isEmpty then writeDeclarations c declarations
  call c (.elementName (.named name))
  if !attributes.isEmpty then writeAttributes c attributes

def writeStart (c : Codec) (name : QualifiedName) (declarations : List NamespaceDeclaration)
    (attributes : List Attribute) : Encoding Unit := do
  call c .mark
  writeParts c name declarations attributes
  call c .endStartElement

def startElement (c : Codec) (name : QualifiedName) (declarations : List NamespaceDeclaration)
    (attributes : List Attribute) : Encoding Unit := do
  openScope declarations
  let name ← resolve .element name
  writeStart c name declarations attributes

def writeEvent (c : Codec) : Event → Encoding Unit
  | .startDocument header => do
    call c (.startDocument header)
    call c .initiate
  | .startElement name declarations attributes => startElement c name declarations attributes
  | .characters content =>
    if c.config.ignoreBlankText && content.isBlank then pure ()
    else callWith c .characters content
  | .comment text => if c.config.ignoreComments then pure () else call c (.comment text)
  | .instruction target data =>
    if c.config.ignoreInstructions then pure () else call c (.instruction target data)
  | .endElement => do
    call c .endElement
    scoping (·.pop)
  | .endDocument => modify fun e => { e with ended := true }

/-- After the end of the document every event is refused. -/
def write (c : Codec) (event : Event) : Encoding Unit := fun e =>
  if e.ended then
    .error (.protocol (.unexpectedCall "write_event" "after the end of the document")) e
  else writeEvent c event e

def finish : Encoding Unit := writing Writer.endDocument

end Encoder

/-- The octets of a document given by all its events. -/
def Codec.encode (c : Codec) (events : List Event) : Except CodecError Octets :=
  let writeAll : Encoding Unit := do
    events.forM (Encoder.write c)
    Encoder.finish
  match writeAll (c.encoder {}) with
  | .ok () e => .ok e.writer.sink.written.toList
  | .error cause _ => .error cause

end BinaryXml
