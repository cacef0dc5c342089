import BinaryXml.Item
import BinaryXml.Sink

/-!
# Writing documents

A writer turns calls into octets. A call out of turn poisons it, so that nothing can be written
after a mistake; a call that fails for any other reason before its octets are put into the buffer
changes nothing. Terminators are held back, because two in a row become one octet, and the buffer
is not handed over while the first octet of an element in it may still change.
-/

namespace BinaryXml

/-- The terminators that were not put into the buffer yet. -/
inductive Termination
  | none
  | single
  | double
  deriving DecidableEq

structure Writer where
  sink : Sink := {}
  buffer : Array UInt8 := #[]
  tables : Tables
  stage : Stage := .idle
  /-- How many elements are open. -/
  depth : Nat := 0
  pending : Termination := .none
  /-- Where the element begins whose start is being written. -/
  mark? : Option Nat := none

abbrev Writing := EStateM CodecError Writer

/-- What a call tells its caller. -/
inductive Reply
  | done
  | named (asIndex : Bool)

def Codec.writer (c : Codec) (sink : Sink) : Writer where
  sink
  tables := { vocabulary := c.startingVocabulary }

namespace Writer

def isPoisoned (w : Writer) : Bool := w.stage = .poisoned

/-! ## Indices ahead of their entries -/

def reserveName (w : Writer) (kind : NameKind) : Nat × Writer :=
  let (index, vocabulary) := w.tables.vocabulary.mapNames kind (·.reserve)
  (index, { w with tables := { w.tables with vocabulary } })

def reserveLocalName (w : Writer) : Nat × Writer :=
  let (index, vocabulary) := w.tables.vocabulary.mapStrings .localName (·.reserve)
  (index, { w with tables := { w.tables with vocabulary } })

def localNameIndex? (w : Writer) (localName : String) : Option Nat :=
  w.tables.vocabulary.localNames.wireIndex? localName

/-! ## The buffer -/

/-- The buffer is handed over once it has this size. -/
def blockSize : Nat := 16 * 1024

def terminate (w : Writer) : Writer :=
  match w.pending with
  | .none => { w with pending := .single }
  | .single => { w with pending := .double }
  | .double => { w with buffer := w.buffer.push Mark.doubleTerminator, pending := .single }

/-- Puts pending terminators into the buffer. -/
def settle (w : Writer) : Writer :=
  match w.pending with
  | .none => w
  | .single => { w with buffer := w.buffer.push Mark.terminator, pending := .none }
  | .double => { w with buffer := w.buffer.push Mark.doubleTerminator, pending := .none }

def put (w : Writer) (octets : Octets) : Writer :=
  { w with buffer := w.buffer ++ octets }

/-- Announces attributes in the first octet of the marked element. -/
def announceAttributes (w : Writer) : Writer :=
  match w.mark? with
  | some mark => { w with buffer := w.buffer.modify mark (· ||| Mark.attributes) }
  | none => w

/-- A long buffer goes to the sink. If the sink refuses it, it is lost and the writer unusable. -/
def handOver : Writing Unit := fun w =>
  if w.mark?.isSome || w.buffer.size < blockSize then .ok () w
  else
    match w.sink.write w.buffer with
    | .ok sink => .ok () { w with sink, buffer := #[] }
    | .error reason => .error (.sink reason) { w with buffer := #[], stage := .poisoned }

/-! ## Calls -/

def refuse {α : Type} (cause : ProtocolError) : Writing α := fun w =>
  .error (.protocol cause) { w with stage := .poisoned }

/-- Makes the entries of an item that was written. -/
def enter (entries : List Entry) : Writing Unit := fun w =>
  match entries.findSome? w.tables.conflict? with
  | some cause => .error (.vocabulary cause) { w with stage := .poisoned }
  | none =>
    match w with
    | ⟨sink, buffer, tables, stage, depth, pending, mark?⟩ =>
      .ok () ⟨sink, buffer, entries.foldl .enter tables, stage, depth, pending, mark?⟩

/-- Writes an item behind the pending terminators. -/
def write (item : Item) : Writing Unit := do
  modify fun w => w.settle.put item.octets
  handOver
  enter item.entries

/-- Writes an item, unless it could not be made. -/
def writeNew (item : Writer → Except CodecError Item) : Writing Unit := fun w =>
  match item w with
  | .ok item => write item w
  | .error cause => .error cause w

def moveTo (stage : Stage) : Writing Unit := modify fun w => { w with stage }

/-- Does what a call in turn asks for. -/
def carryOut (c : Codec) : Call → Writing Unit
  | .startDocument header => writeNew fun w => Item.ofHeader c w.tables header
  | .initiate => pure ()
  | .mark => modify fun w =>
    let w := w.settle
    { w with mark? := some w.buffer.size }
  | .startDeclarations => modify (·.put [Mark.declarations])
  | .declare nsPrefix namespaceName =>
    writeNew fun w => Item.ofDeclaration w.tables nsPrefix namespaceName
  | .endDeclarations => modify (·.put [Mark.terminator])
  | .elementName name => writeNew fun w => Item.ofName w.tables .element name
  | .startAttributes => modify announceAttributes
  | .attributeName name => writeNew fun w => Item.ofName w.tables .attribute name
  | .attributeValue value => writeNew fun w => Item.ofValue c w.tables value
  | .endStartElement => do
    modify fun w =>
      let w := if w.stage = .attributes then w.terminate else w
      { w with mark? := none, depth := w.depth + 1 }
    handOver
  | .characters content => fun w =>
    match Item.ofCharacters? c w.tables content with
    | .ok (some item) => write item w
    | .ok none => .ok () w
    | .error cause => .error cause w
  | .endElement => do
    modify fun w => { w.terminate with depth := w.depth - 1 }
    handOver
  | .comment text => writeNew fun w => Item.ofComment c w.tables text
  | .instruction target data => writeNew fun w => Item.ofInstruction c w.tables target data

/-- A name given by its parts is written as an index if it has one. -/
def reply (w : Writer) : Call → Reply
  | .elementName (.named name) =>
    .named (w.tables.vocabulary.elementNames.wireIndex? name).isSome
  | .attributeName (.named name) =>
    .named (w.tables.vocabulary.attributeNames.wireIndex? name).isSome
  | _ => .done

def perform (c : Codec) (call : Call) : Writing Reply := fun w =>
  if w.stage = .poisoned then .error (.protocol .poisoned) w
  else if call.isAllowed w.stage w.depth then
    let reply := w.reply call
    (do
      carryOut c call
      moveTo call.stageAfter
      return reply : Writing Reply) w
  else refuse (.unexpectedCall call.operation (w.stage.situation w.depth)) w

/-! ## The end of a document -/

/-- Everything that is left goes to the sink. -/
def finish : Writing Unit := fun w =>
  let w := w.terminate.settle
  match w.sink.write w.buffer with
  | .error reason => .error (.sink reason) { w with stage := .poisoned }
  | .ok sink =>
    match sink.flush with
    | .error reason => .error (.sink reason) { w with sink, buffer := #[], stage := .poisoned }
    | .ok () => .ok () { w with sink, buffer := #[], stage := .poisoned }

def endDocument : Writing Unit := fun w =>
  if w.stage = .poisoned then .error (.protocol .poisoned) w
  else if w.stage ≠ .content then
    refuse (.unexpectedCall "end_document" (w.stage.situation w.depth)) w
  else if 0 < w.depth then refuse (.unclosedElements w.depth) w
  else finish w

end Writer

end BinaryXml
