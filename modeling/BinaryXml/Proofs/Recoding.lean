import BinaryXml.Proofs.DecodedContent
import BinaryXml.Proofs.EncoderSuccess

/-!
# Decoded documents are written again

A document that decodes may be written in many ways, and most of them are not the encoder's. Its
events are accepted by the encoder all the same. What is read back then differs from them only
where the settings leave something out, where there are no characters, and where an element is in
the default namespace without saying so.
-/

namespace BinaryXml

/-! ## What is left of events -/

/-- As the value of an attribute, text without characters belongs to no alphabet. -/
def Content.recodedValue : Content → Content
  | restricted alphabet characters =>
    if characters = "" then text "" else restricted alphabet characters
  | content => content

def Attribute.recoded (a : Attribute) : Attribute where
  name := a.name
  value := a.value.recodedValue

/-- The name of an element without prefix and namespace is in the default namespace. -/
def QualifiedName.recoded (opened : List (List NamespaceDeclaration)) (name : QualifiedName) :
    QualifiedName :=
  if name.nsPrefix = "" ∧ name.namespaceName = "" then
    { name with namespaceName := namespaceOf opened "" }
  else name

/-- What is read back of a decoded event that is written again in elements with these
declarations. -/
def Event.recoded? (config : Config) (opened : List (List NamespaceDeclaration)) :
    Event → Option Event
  | .startElement name declarations attributes =>
    some (.startElement (name.recoded (declarations :: opened)) declarations
      (attributes.map Attribute.recoded))
  | .characters content =>
    if (config.ignoreBlankText && content.isBlank) || content.asText? = some "" then none
    else some (.characters content)
  | .comment text => if config.ignoreComments then none else some (.comment text)
  | .instruction target data =>
    if config.ignoreInstructions then none else some (.instruction target data)
  | event => some event

/-- The same for all events inside of elements with the given declarations. -/
def Config.recodedIn (config : Config) (opened : List (List NamespaceDeclaration)) :
    List Event → List Event
  | [] => []
  | event :: events =>
    (event.recoded? config opened).toList ++ config.recodedIn (event.openedAfter opened) events

/-! ## Names -/

namespace QualifiedName

variable {name : QualifiedName}

theorem IsProper.isBound (h : name.IsProper) (opened : List (List NamespaceDeclaration)) :
    name.IsBound opened :=
  ⟨h.localName_ne, fun prefixed => .inl (h.namespaceName_ne prefixed)⟩

theorem IsProper.resolved_element (h : name.IsProper) (opened : List (List NamespaceDeclaration)) :
    name.resolved opened .element = name.recoded opened := by
  unfold resolved recoded
  by_cases named : name.namespaceName = ""
  · have bare : name.nsPrefix = "" := by
      by_cases prefixed : name.nsPrefix = ""
      · exact prefixed
      · exact absurd named (h.namespaceName_ne prefixed)
    simp [hasNamespace, named, bare]
  · simp [hasNamespace, named]

theorem IsProper.resolved_attribute (h : name.IsProper)
    (opened : List (List NamespaceDeclaration)) : name.resolved opened .attribute = name := by
  unfold resolved
  by_cases prefixed : name.nsPrefix = ""
  · simp [hasPrefix, prefixed]
  · simp [hasNamespace, h.namespaceName_ne prefixed]

end QualifiedName

/-! ## Events -/

theorem Content.IsRewritable.asValue_eq {c : Codec} {content : Content}
    (h : content.IsRewritable c) : (content.written c).asValue c = content.recodedValue := by
  rw [h.written_eq, asValue, h.isVacuous_eq]
  cases content with
  | text characters =>
      by_cases empty : characters = "" <;> simp [recodedValue, asText?, empty]
  | restricted id characters => simp [recodedValue, asText?]
  | typed | undecoded => rfl

/-- The event is one that comes out of octets which name no vocabulary. -/
structure Event.IsRewritable (c : Codec) (event : Event) : Prop where
  proper : event.IsProper
  content : event.AllContent (Content.IsRewritable c)

namespace Event

variable {c : Codec} {event : Event}

theorem IsRewritable.isReadable (h : event.IsRewritable c) : event.IsReadable c := by
  obtain ⟨-, content⟩ := h
  cases event with
  | startElement name ds as => exact fun a mem => (content a mem).readable
  | characters => exact content.readable
  | _ => trivial

theorem IsRewritable.isAcceptable (h : event.IsRewritable c)
    (allowed : ∀ name ds as, event = .startElement name ds as → ∀ d ∈ ds, d.IsAllowed)
    (opened : List (List NamespaceDeclaration)) : event.IsAcceptable c opened := by
  obtain ⟨proper, content⟩ := h
  cases event with
  | startElement name ds as =>
      obtain ⟨named, declared, attributed⟩ := proper
      refine ⟨fun d mem => ⟨allowed name ds as rfl d mem, declared d mem⟩, named.isBound _, ?_⟩
      exact fun a mem => ⟨(attributed a mem).isBound _, (content a mem).encodable⟩
  | characters => exact content.encodable
  | instruction => exact proper
  | _ => trivial

theorem IsRewritable.normalised?_eq (h : event.IsRewritable c)
    (inner : (∀ header, event ≠ .startDocument header) ∧ event ≠ .endDocument)
    (opened : List (List NamespaceDeclaration)) :
    event.normalised? c opened = event.recoded? c.config opened := by
  obtain ⟨proper, content⟩ := h
  cases event with
  | startDocument header => exact absurd rfl (inner.1 header)
  | startElement name ds as =>
      obtain ⟨named, -, attributed⟩ := proper
      have same : as.map (Attribute.normalised c (ds :: opened)) = as.map Attribute.recoded := by
        apply List.map_congr_left
        intro a mem
        rw [Attribute.normalised, Attribute.recoded, (attributed a mem).resolved_attribute,
          (content a mem).asValue_eq]
      rw [normalised?, recoded?, named.resolved_element, same]
  | characters => rw [normalised?, recoded?, content.written_eq, content.isVacuous_eq]
  | endDocument => exact absurd rfl inner.2
  | comment | instruction | endElement => rfl

end Event

/-! ## Documents -/

namespace Codec

open Decoder

variable {c : Codec} {events body : List Event}

theorem acceptableIn_of_forall (h : ∀ event ∈ events, ∀ opened, event.IsAcceptable c opened)
    (opened : List (List NamespaceDeclaration)) : c.AcceptableIn opened events := by
  induction events generalizing opened with
  | nil => trivial
  | cons event events ih =>
      obtain ⟨first, rest⟩ := List.forall_mem_cons.1 h
      exact ⟨first opened, ih rest _⟩

/-- The end of the document, which the normal form always has, is there already. -/
theorem normalisedIn_eq_recodedIn (rewritable : ∀ event ∈ body, event.IsRewritable c)
    (inner : ∀ event ∈ body, (∀ header, event ≠ .startDocument header) ∧ event ≠ .endDocument)
    (opened : List (List NamespaceDeclaration)) :
    c.normalisedIn opened (body ++ [.endDocument]) ++ [.endDocument] =
      c.config.recodedIn opened (body ++ [.endDocument]) := by
  induction body generalizing opened with
  | nil => rfl
  | cons event body ih =>
      obtain ⟨first, rest⟩ := List.forall_mem_cons.1 rewritable
      obtain ⟨event_inner, body_inner⟩ := List.forall_mem_cons.1 inner
      rw [List.cons_append, normalisedIn, Config.recodedIn, first.normalised?_eq event_inner,
        List.append_assoc, ih rest body_inner]

theorem normalised_eq_recodedIn {header : DocumentHeader} (plain : c.initial? = none)
    (unnamed : header.externalVocabulary = none) (rewritable : ∀ event ∈ body, event.IsRewritable c)
    (inner : ∀ event ∈ body, (∀ header, event ≠ .startDocument header) ∧ event ≠ .endDocument) :
    c.normalised (.startDocument header :: body ++ [.endDocument]) =
      c.config.recodedIn [] (.startDocument header :: body ++ [.endDocument]) := by
  have none : c.initialUri? = none := by
    rw [initialUri?, plain]
    rfl
  have same : (Event.startDocument header).normalised? c [] =
      (Event.startDocument header).recoded? c.config [] := by
    rw [Event.normalised?, none, ← unnamed]
    rfl
  rw [List.cons_append, normalised, normalisedIn, Config.recodedIn, same, List.append_assoc]
  exact congrArg _ (normalisedIn_eq_recodedIn rewritable inner [])

/-- What is known about octets that decode and name no vocabulary. -/
theorem rewritable_of_decode {octets : Octets} (builtin : c.algorithms = {})
    (unnamed : ¬NamesVocabulary octets) (decoded : c.decode octets = .ok events) :
    ∃ header body, events = .startDocument header :: body ++ [.endDocument] ∧
      header.externalVocabulary = none ∧ eventNesting.Items false body ∧
      ∀ event ∈ events, event.IsRewritable c := by
  obtain ⟨header, v, i, after, read, ran, rfl⟩ := decode_eq_ok decoded
  obtain ⟨events, all, body, closing, rfl⟩ := expects_of_run ran
  obtain ⟨none, tables⟩ := isPlain_of_readHeader read unnamed
  refine ⟨header, body, all, none, Nesting.items_of_closing closing, fun event mem => ?_⟩
  constructor
  · have proper : State.IsProper { vocabulary := v } := ⟨tables, trivial⟩
    exact proper_of_run ran proper (by simp [Event.IsProper]) event mem
  · exact allContent_of_run (resolvesTo_isRewritable builtin) ran trivial
      (by simp [Event.AllContent]) event mem

/-- What decodes without a vocabulary from outside is accepted by an encoder without one, and
what is read back then has the same events, but for what is left out and the default namespace. -/
theorem recoded_of_decode (c : Codec) (builtin : c.algorithms = {}) (plain : c.initial? = none)
    (octets : Octets) (unnamed : ¬NamesVocabulary octets) (events : List Event)
    (decoded : c.decode octets = .ok events)
    (allowed : ∀ name ds as, .startElement name ds as ∈ events → ∀ d ∈ ds, d.IsAllowed)
    (limited : ∀ event ∈ events, event.IsLimited c) :
    ∃ document, c.encode events = .ok document ∧
      c.decode document = .ok (c.config.recodedIn [] events) := by
  obtain ⟨header, body, rfl, none, items, rewritable⟩ :=
    rewritable_of_decode builtin unnamed decoded
  have within {event : Event} (mem : event ∈ body) :
      event ∈ .startDocument header :: body ++ [.endDocument] := by
    simp [mem]
  have acceptable : c.AcceptableIn [] body := by
    apply acceptableIn_of_forall
    intro event mem
    apply (rewritable event (within mem)).isAcceptable
    rintro name ds as rfl
    exact allowed name ds as (within mem)
  obtain ⟨e, written, standing⟩ := exists_forM_write (by simp [initialUri?, plain]) items acceptable
    fun event mem => limited event (List.mem_append_left _ mem)
  obtain ⟨document, encoded⟩ := exists_encode_of_standing written standing (.inr rfl)
  have read := decode_of_readable encoded fun event mem => (rewritable event mem).isReadable
  rw [normalised_eq_recodedIn plain none (fun event mem => rewritable event (within mem))
    (not_document_of_items items)] at read
  exact ⟨document, encoded, read⟩

/-- An element with a packed chunk in which there are no characters. -/
def emptyChunk : Octets :=
  [0xE0, 0x00, 0x00, 0x01, 0x00, 0x3C, 0x00, 0x61, 0x88, 0x00, 0x00, 0xFF]

def emptyChunkEvents : List Event :=
  [.startDocument {}, .startElement { localName := "a" } [] [], .characters (.restricted 0 ""),
    .endElement, .endDocument]

theorem decode_emptyChunk : ({} : Codec).decode emptyChunk = .ok emptyChunkEvents := by
  obtain ⟨v, inside⟩ := arrives_oneElement
  have empty : (v.strings .characterChunk).resolveContent {} (.packed .alphabet 0 [0] false) =
      .ok (.restricted 0 "", v.strings .characterChunk) := by
    have known : ({} : Codec).alphabets.find? 0 = some numericAlphabet := rfl
    have blank : numericAlphabet.decode 0 [0] = .ok "" := by
      have width : numericAlphabet.width = 4 := by
        rw [Alphabet.width, numericAlphabet, Alphabet.size_ofDistinct]
        decide
      simp [Alphabet.decode, Alphabet.unpack, width]
      rfl
    simp only [Table.resolveContent, known, blank]
    rfl
  have resolved : v.resolveContent {} .characterChunk (.packed .alphabet 0 [0] false) =
      .ok (.restricted 0 "", v) := by
    rw [Vocabulary.resolveContent, Vocabulary.updateStrings_eq, empty]
    exact congrArg (fun v' => Except.ok (_, v')) (v.withStrings_self _)
  have chunk : Yields (Representation.readChunk 0x88) [0, 0] (.packed .alphabet 0 [0] false) :=
    fun _ _ => rfl
  have read : Yields (step {} { vocabulary := v, depth := 1 }) [0x88, 0, 0]
      ([.characters (.restricted 0 "")], { vocabulary := v, depth := 1 }) := by
    apply step_of_octet
    apply (Reading.yields_ofParser chunk).bind.done
    exact (Reading.yields_ofExcept resolved).bind.done (yields_pure _)
  have behind := inside.passes (passes_of_yields read fun ended => by cases ended)
  exact behind.decode_of_ended (yields_doubleTerminator (yields_terminator {} v 1)) rfl

/-- The chunk is dropped, since there is nothing in it. -/
theorem recoded_of_decode_emptyChunk :
    ({} : Codec).decode emptyChunk = .ok emptyChunkEvents ∧ ¬NamesVocabulary emptyChunk ∧
      (∀ name ds as, .startElement name ds as ∈ emptyChunkEvents → ∀ d ∈ ds, d.IsAllowed) ∧
      (∀ event ∈ emptyChunkEvents, event.IsLimited {}) ∧
      ∃ document, ({} : Codec).encode emptyChunkEvents = .ok document ∧
        ({} : Codec).decode document =
          .ok [.startDocument {}, .startElement { localName := "a" } [] [], .endElement,
            .endDocument] := by
  have unnamed : ¬NamesVocabulary emptyChunk := by
    rintro ⟨flags, ⟨⟩, announced⟩
    exact absurd rfl announced
  have allowed : ∀ name ds as, .startElement name ds as ∈ emptyChunkEvents →
      ∀ d ∈ ds, d.IsAllowed := by
    simp +contextual [emptyChunkEvents]
  have limited : ∀ event ∈ emptyChunkEvents, event.IsLimited {} := by
    simp only [emptyChunkEvents, List.forall_mem_cons, Event.IsLimited]
    have packed : ∀ octets, ({} : Codec).alphabets.encode 0 "" = .ok octets →
        octets.length ≤ stringLimit := by
      intro octets encoded
      cases encoded
      decide
    refine ⟨?_, ⟨⟨by decide, by decide, by decide⟩, ?_, ?_⟩, ⟨by decide, packed⟩, trivial,
      trivial, ?_⟩
    all_goals
      intro x mem
      cases mem
  have again := recoded_of_decode {} rfl rfl emptyChunk unnamed _ decode_emptyChunk allowed limited
  exact ⟨decode_emptyChunk, unnamed, allowed, limited, again⟩

end Codec

end BinaryXml
