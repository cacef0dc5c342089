import BinaryXml.Proofs.WriterEffects

/-!
# Sessions of a writer

In a session calls are made in any order and with any arguments, between them indices are reserved,
and whatever fails is passed over. The transcript of a session lists the events of the calls that
succeeded; of an element whose start is not complete it holds what was given so far.
-/

namespace BinaryXml

structure Transcript where
  events : List Event := []
  name : QualifiedName := { localName := "" }
  declarations : List NamespaceDeclaration := []
  attributes : List Attribute := []
  attributeName : QualifiedName := { localName := "" }

namespace Transcript

def append (t : Transcript) (e : Event) : Transcript := { t with events := t.events ++ [e] }

/-- Takes down a call that succeeded; `v` holds the tables in which it looked up its names. -/
def note (c : Codec) (v : Vocabulary) (t : Transcript) : Call → Transcript
  | .startDocument header =>
    t.append (.startDocument { header with externalVocabulary := c.initialUri? })
  | .initiate => t
  | .mark => { events := t.events }
  | .startDeclarations => t
  | .declare nsPrefix namespaceName =>
    { t with declarations := t.declarations ++ [{ nsPrefix, namespaceName }] }
  | .endDeclarations => t
  | .elementName reference => { t with name := (reference.name? v .element).getD t.name }
  | .startAttributes => t
  | .attributeName reference =>
    { t with attributeName := (reference.name? v .attribute).getD t.attributeName }
  | .attributeValue value =>
    { t with attributes := t.attributes ++ [{ name := t.attributeName, value := value.asValue c }] }
  | .endStartElement => { events := t.events ++ [.startElement t.name t.declarations t.attributes] }
  | .characters content => if content.isVacuous c then t else t.append (.characters content)
  | .endElement => t.append .endElement
  | .comment text => t.append (.comment text)
  | .instruction target data => t.append (.instruction target data)

end Transcript

/-! ## What a reader receives -/

def Attribute.received (c : Codec) (a : Attribute) : Except CodecError Attribute :=
  (a.value.received c).map fun value => { a with value }

def Event.received (c : Codec) : Event → Except CodecError Event
  | .startElement name declarations attributes =>
    (attributes.mapM (Attribute.received c)).map (.startElement name declarations)
  | .characters content => (content.received c).map .characters
  | e => .ok e

/-- The transcript as it comes out of a reader, up to the first content that it cannot unpack. -/
def Transcript.received (c : Codec) (t : Transcript) : Except CodecError Transcript := do
  let events ← t.events.mapM (Event.received c)
  let attributes ← t.attributes.mapM (Attribute.received c)
  return { t with events, attributes }

/-- The content that a call writes. -/
def Call.content? : Call → Option Content
  | .attributeValue value => some value
  | .characters content => some content
  | _ => none

namespace Writer

variable {c : Codec} {call : Call} {w w' : Writer}

/-- Content that was written had a representation. -/
theorem represented_of_perform {content : Content} {reply : Reply}
    (given : call.content? = some content) (h : perform c call w = .ok reply w') :
    ∃ kind r?, w.tables.represent? c kind content = .ok r? := by
  obtain ⟨-, u, done, rfl⟩ := perform_eq_ok h
  unfold carryOut at done
  cases call with
  | attributeValue value =>
      cases given
      obtain ⟨item, made, -⟩ := wrote_of_writeNew done
      obtain ⟨r?, represented, -⟩ := Item.ofValue_eq_ok made
      exact ⟨_, r?, represented⟩
  | characters value =>
      cases given
      dsimp only at done
      split at done
      · next made => exact ⟨_, Item.represented_of_ofCharacters? made⟩
      · next made => exact ⟨_, Item.represented_of_ofCharacters? made⟩
      · cases done
  | _ => cases given

end Writer

namespace Transcript

variable {c : Codec} {t r : Transcript} {cause : CodecError}

theorem received_eq_ok (h : t.received c = .ok r) :
    t.events.mapM (Event.received c) = .ok r.events ∧
      t.attributes.mapM (Attribute.received c) = .ok r.attributes ∧
      r = { t with events := r.events, attributes := r.attributes } := by
  unfold received at h
  cases events : t.events.mapM (Event.received c) with
  | error cause => rw [events] at h; cases h
  | ok es =>
      cases attributes : t.attributes.mapM (Attribute.received c) with
      | error cause => rw [events, attributes] at h; cases h
      | ok as =>
          rw [events, attributes] at h
          cases h
          exact ⟨rfl, rfl, rfl⟩

theorem received_of_parts {events : List Event} {attributes : List Attribute}
    (hevents : t.events.mapM (Event.received c) = .ok events)
    (hattributes : t.attributes.mapM (Attribute.received c) = .ok attributes) :
    t.received c = .ok { t with events, attributes } := by
  rw [received, hevents, hattributes]
  rfl

theorem received_append (h : t.received c = .ok r) (e : Event) :
    (t.append e).received c = (e.received c).map r.append := by
  obtain ⟨events, attributes, same⟩ := received_eq_ok h
  rw [received, append, List.mapM_append, events, same, attributes, List.mapM_cons,
    List.mapM_nil]
  cases e.received c <;> rfl

theorem received_eq_error (h : t.received c = .error cause) :
    t.events.mapM (Event.received c) = .error cause ∨
      ∃ events, t.events.mapM (Event.received c) = .ok events ∧
        t.attributes.mapM (Attribute.received c) = .error cause := by
  unfold received at h
  cases events : t.events.mapM (Event.received c) with
  | error cause =>
      rw [events] at h
      cases h
      exact .inl rfl
  | ok es =>
      cases attributes : t.attributes.mapM (Attribute.received c) with
      | error cause =>
          rw [events, attributes] at h
          cases h
          exact .inr ⟨es, rfl, rfl⟩
      | ok as => rw [events, attributes] at h; cases h

theorem events_of_error (blank : t.attributes = []) (h : t.received c = .error cause) :
    t.events.mapM (Event.received c) = .error cause := by
  rcases received_eq_error h with events | ⟨es, -, attributes⟩
  · exact events
  · rw [blank] at attributes
    cases attributes

theorem received_of_events {t' : Transcript} (h : t.events.mapM (Event.received c) = .error cause)
    (events : t.events <+: t'.events) : t'.received c = .error cause := by
  obtain ⟨more, same⟩ := events
  rw [received, ← same, List.mapM_append, h]
  rfl

/-- What else a transcript holds does not matter to what a reader cannot unpack. -/
theorem received_congr {t' : Transcript} (h : t.received c = .error cause)
    (events : t'.events = t.events) (attributes : t'.attributes = t.attributes) :
    t'.received c = .error cause := by
  rw [received, events, attributes]
  rcases received_eq_error h with failed | ⟨es, known, failed⟩
  · rw [failed]
    rfl
  · rw [known, failed]
    rfl

theorem received_note_endStartElement (h : t.received c = .ok r) (v : Vocabulary) :
    (t.note c v .endStartElement).received c = .ok (r.note c v .endStartElement) := by
  obtain ⟨events, attributes, same⟩ := received_eq_ok h
  have started : (Event.startElement t.name t.declarations t.attributes).received c =
      .ok (.startElement t.name t.declarations r.attributes) := by
    rw [Event.received, attributes]
    rfl
  rw [received, note, List.mapM_append, events, List.mapM_cons, started, same]
  rfl

theorem received_note_endStartElement_of_error (h : t.received c = .error cause) (v : Vocabulary) :
    (t.note c v .endStartElement).received c = .error cause := by
  rw [received, note, List.mapM_append, List.mapM_cons, Event.received]
  rcases received_eq_error h with failed | ⟨es, known, failed⟩
  · rw [failed]
    rfl
  · rw [known, failed]
    rfl

theorem received_note_attributeValue (h : t.received c = .ok r) (v : Vocabulary)
    (value : Content) :
    (t.note c v (.attributeValue value)).received c =
      ((value.asValue c).received c).map fun value =>
        { r with attributes := r.attributes ++ [{ name := r.attributeName, value }] } := by
  obtain ⟨events, attributes, same⟩ := received_eq_ok h
  rw [received, note, List.mapM_append, events, attributes, List.mapM_cons, List.mapM_nil,
    Attribute.received, same]
  cases (value.asValue c).received c <;> rfl

theorem received_note_attributeValue_of_error (h : t.received c = .error cause) (v : Vocabulary)
    (value : Content) : (t.note c v (.attributeValue value)).received c = .error cause := by
  rw [received, note, List.mapM_append]
  rcases received_eq_error h with failed | ⟨es, known, failed⟩
  · rw [failed]
    rfl
  · rw [known, failed]
    rfl

/-- Calls without content are received as they are made. -/
theorem received_note (h : t.received c = .ok r) {call : Call} (plain : call.content? = none)
    (v : Vocabulary) : (t.note c v call).received c = .ok (r.note c v call) := by
  obtain ⟨events, attributes, same⟩ := received_eq_ok h
  cases call with
  | startDocument | endElement | comment | instruction => exact received_append h _
  | initiate | startDeclarations | endDeclarations | startAttributes => exact h
  | mark => exact received_of_parts events rfl
  | endStartElement => exact received_note_endStartElement h v
  | declare | elementName | attributeName =>
      rw [same]
      exact received_of_parts events attributes
  | attributeValue value => cases plain
  | characters content => cases plain

end Transcript

/-! ## Sessions -/

inductive Action
  | call (call : Call)
  | reserveName (kind : NameKind)
  | reserveLocalName

structure Session where
  writer : Writer
  transcript : Transcript := {}

def Codec.session (c : Codec) (sink : Sink) : Session where
  writer := c.writer sink

namespace Session

def act (c : Codec) (s : Session) : Action → Session
  | .call call =>
    match Writer.perform c call s.writer with
    | .ok _ writer =>
      { writer, transcript := s.transcript.note c s.writer.tables.vocabulary call }
    | .error _ writer => { s with writer }
  | .reserveName kind => { s with writer := (s.writer.reserveName kind).2 }
  | .reserveLocalName => { s with writer := s.writer.reserveLocalName.2 }

def run (c : Codec) (s : Session) (actions : List Action) : Session :=
  actions.foldl (act c) s

theorem act_of_perform {c : Codec} {s : Session} {call : Call} {reply : Reply} {w : Writer}
    (h : Writer.perform c call s.writer = .ok reply w) :
    s.act c (.call call) = ⟨w, s.transcript.note c s.writer.tables.vocabulary call⟩ := by
  rw [act, h]

end Session

end BinaryXml
