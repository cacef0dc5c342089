import BinaryXml.Proofs.CallSuccess
import BinaryXml.Proofs.DecodedDocuments
import BinaryXml.Proofs.DocumentRoundTrip

/-!
# Event lists that are accepted

An encoder accepts every list of events in which elements are nested and the parts of each event
are acceptable where they stand. Between events the writer is in element content, at the depth of
the open elements, with their scopes; each event leads from there to the same for what is open
after it.
-/

namespace BinaryXml

/-! ## Acceptable events -/

/-- The name has a local part, and a prefix without a namespace is bound in the elements around
it. -/
structure QualifiedName.IsBound (opened : List (List NamespaceDeclaration)) (name : QualifiedName) :
    Prop where
  localName_ne : name.localName ≠ ""
  bound : name.nsPrefix ≠ "" → name.namespaceName ≠ "" ∨ namespaceOf opened name.nsPrefix ≠ ""

namespace Event

/-- The event can be written in elements with the given declarations, unless it is too long. -/
def IsAcceptable (c : Codec) (opened : List (List NamespaceDeclaration)) : Event → Prop
  | startElement name declarations attributes =>
    (∀ d ∈ declarations, d.IsAllowed ∧ d.IsProper) ∧ name.IsBound (declarations :: opened) ∧
      ∀ a ∈ attributes, a.name.IsBound (declarations :: opened) ∧ a.value.IsEncodable c
  | characters content => content.IsEncodable c
  | instruction target _ => target ≠ ""
  | _ => True

/-- No string of the event, nor the octets that content is packed into, are too long. -/
def IsLimited (c : Codec) : Event → Prop
  | startDocument header => ∀ text ∈ header.version, IsShort text
  | startElement name declarations attributes =>
    name.IsLimited ∧ (∀ d ∈ declarations, d.IsLimited) ∧
      ∀ a ∈ attributes, a.name.IsLimited ∧ a.value.IsLimited c
  | characters content => content.IsLimited c
  | comment text => IsShort text
  | instruction target data => IsShort target ∧ IsShort data
  | _ => True

end Event

/-- The declaration may be made, and it can be written. -/
structure NamespaceDeclaration.IsAcceptable (d : NamespaceDeclaration) : Prop
    extends d.IsWritable where
  allowed : d.IsAllowed

/-- Each event is acceptable where it stands. -/
def Codec.AcceptableIn (c : Codec) (opened : List (List NamespaceDeclaration)) :
    List Event → Prop
  | [] => True
  | event :: events =>
    event.IsAcceptable c opened ∧ c.AcceptableIn (event.openedAfter opened) events

/-! ## Resolved names -/

section Resolved

variable {opened : List (List NamespaceDeclaration)} {name : QualifiedName}

theorem isShort_namespaceOf (declared : ∀ ds ∈ opened, ∀ d ∈ ds, IsShort d.namespaceName)
    (nsPrefix : String) : IsShort (namespaceOf opened nsPrefix) := by
  unfold namespaceOf
  cases found : (opened.flatMap List.reverse ++ NamespaceDeclaration.predeclared).find?
      fun d => d.nsPrefix = nsPrefix with
  | none => decide
  | some d =>
      rcases List.mem_append.1 (List.mem_of_find?_eq_some found) with inside | fixed
      · obtain ⟨ds, isOpen, mem⟩ := List.mem_flatMap.1 inside
        exact declared ds isOpen d (List.mem_reverse.1 mem)
      · have short : ∀ d ∈ NamespaceDeclaration.predeclared, IsShort d.namespaceName := by decide
        exact short d fixed

theorem QualifiedName.IsBound.isWritable_resolved (h : name.IsBound opened)
    (limited : name.IsLimited) (declared : ∀ ds ∈ opened, ∀ d ∈ ds, IsShort d.namespaceName)
    (kind : NameKind) : (name.resolved opened kind).IsWritable := by
  have short := isShort_namespaceOf declared name.nsPrefix
  unfold resolved
  split
  · next given =>
      refine ⟨limited, h.localName_ne, fun prefixed => ?_⟩
      simpa [hasNamespace, hasPrefix, prefixed] using given
  · next bare =>
      refine ⟨⟨limited.nsPrefix_short, short, limited.localName_short⟩, h.localName_ne,
        fun prefixed => ?_⟩
      rcases h.bound prefixed with given | bound
      · simp [hasNamespace, given] at bare
      · exact bound

/-- A name that is bound can be resolved. -/
theorem NamespaceScopes.resolveName_of_isBound (h : name.IsBound opened)
    (allowed : ∀ ds ∈ opened, ∀ d ∈ ds, d.IsAllowed) (kind : NameKind) :
    (ofElements opened).resolveName kind name = .ok (name.resolved opened kind) := by
  cases found : (ofElements opened).resolveName kind name with
  | ok resolved => rw [resolveName_eq_ok allowed found]
  | error cause =>
      unfold resolveName at found
      split at found
      · cases found
      · next bare =>
          split at found
          · next prefixed =>
              dsimp only at found
              rw [uriOf_ofElements allowed] at found
              split at found
              · next unbound =>
                  rcases h.bound (by simpa [QualifiedName.hasPrefix] using prefixed) with
                    given | bound
                  · simp [QualifiedName.hasNamespace, given] at bare
                  · exact absurd (String.isEmpty_iff.1 unbound) bound
              · cases found
          · cases kind <;> cases found

theorem NamespaceScopes.exists_declare {s : NamespaceScopes} {d : NamespaceDeclaration}
    (allowed : d.IsAllowed) : ∃ s', s.declare d.nsPrefix d.namespaceName = .ok s' := by
  obtain ⟨own, other, foreign⟩ := allowed
  unfold declare
  split
  · exact ⟨_, rfl⟩
  · next plain =>
      have notXml : d.nsPrefix ≠ "xml" := fun xml => plain ⟨xml, own.1 xml⟩
      have notOwn : d.namespaceName ≠ xmlNamespace := fun same => notXml (own.2 same)
      rw [if_neg (by simp [notXml, other]), if_neg (by simp [notOwn, foreign])]
      exact ⟨_, rfl⟩

end Resolved

/-! ## Steps that succeed -/

namespace Encoder

variable {c : Codec} {P Q R : Encoder → Prop} {p q : Encoding Unit}

/-- Wherever `P` holds the step succeeds, and `Q` holds after it. -/
def Leads (P : Encoder → Prop) (p : Encoding Unit) (Q : Encoder → Prop) : Prop :=
  ∀ e, P e → ∃ e', p e = .ok () e' ∧ Q e'

theorem leads_pure (P : Encoder → Prop) : Leads P (pure ()) P :=
  fun e before => ⟨e, rfl, before⟩

theorem Leads.bind (first : Leads P p Q) (second : Leads Q q R) :
    Leads P (p >>= fun _ => q) R := by
  intro e before
  obtain ⟨u, done, between⟩ := first e before
  obtain ⟨e', rest, after⟩ := second u between
  exact ⟨e', (bind_of_ok done).trans rest, after⟩

theorem leads_forM {β : Type} {f : β → Encoding Unit} {xs : List β}
    (step : ∀ x ∈ xs, Leads P (f x) P) : Leads P (xs.forM f) P := by
  induction xs with
  | nil => exact leads_pure P
  | cons x xs ih =>
      obtain ⟨first, rest⟩ := List.forall_mem_cons.1 step
      exact first.bind (ih rest)

/-- Where the encoder stands: the writer expects the calls of a stage and keeps nothing back from
its sink, and the scopes are those of the open elements. -/
structure Standing (stage : Stage) (depth : Nat) (opened : List (List NamespaceDeclaration))
    (e : Encoder) : Prop where
  stage_eq : e.writer.stage = stage
  depth_eq : e.writer.depth = depth
  sink_eq : e.writer.sink = { written := e.writer.sink.written }
  scopes_eq : e.scopes = .ofElements opened
  running : e.ended = false

variable {stage stage' : Stage} {depth depth' : Nat}
variable {opened opened' : List (List NamespaceDeclaration)}

theorem leads_call {call : Call} (turn : call.isAllowed stage depth = true)
    (makeable : call.IsMakeable c) :
    Leads (Standing stage depth opened) (Encoder.call c call)
      (Standing call.stageAfter (Writer.depthAfter depth call) opened) := by
  intro e standing
  obtain ⟨item?, made⟩ := makeable e.writer.tables
  have unlimited : e.writer.sink.capacity? = none := by rw [standing.sink_eq]
  have allowed : call.isAllowed e.writer.stage e.writer.depth = true := by
    rw [standing.stage_eq, standing.depth_eq]
    exact turn
  obtain ⟨reply, w, performed⟩ := Writer.exists_perform unlimited allowed made
  refine ⟨_, call_of_perform performed, Writer.stage_of_perform performed, ?_, ?_,
    standing.scopes_eq, standing.running⟩
  · rw [← standing.depth_eq]
    exact Writer.depth_of_perform performed
  · have kept := Writer.sink_of_perform performed
    rw [standing.sink_eq] at kept
    exact kept

/-- Calls without an item. -/
theorem leads_plain {call : Call} (turn : call.isAllowed stage depth = true)
    (plain : ∀ t, call.item? c t = .ok none) :
    Leads (Standing stage depth opened) (Encoder.call c call)
      (Standing call.stageAfter (Writer.depthAfter depth call) opened) :=
  leads_call turn fun t => ⟨none, plain t⟩

theorem leads_scoping {f : NamespaceScopes → Except NamespaceError NamespaceScopes}
    (h : f (.ofElements opened) = .ok (.ofElements opened')) :
    Leads (Standing stage depth opened) (scoping f) (Standing stage depth opened') := by
  intro e standing
  have done : scoping f e = .ok () { e with scopes := .ofElements opened' } := by
    rw [scoping, standing.scopes_eq, h]
  exact ⟨_, done, standing.stage_eq, standing.depth_eq, standing.sink_eq, rfl, standing.running⟩

theorem leads_resolve {kind : NameKind} {name resolved : QualifiedName}
    {f : QualifiedName → Encoding Unit}
    (found : (NamespaceScopes.ofElements opened).resolveName kind name = .ok resolved)
    (rest : Leads (Standing stage depth opened) (f resolved) Q) :
    Leads (Standing stage depth opened) (resolve kind name >>= f) Q := by
  intro e standing
  obtain ⟨e', done, after⟩ := rest e standing
  have known : e.scopes.resolveName kind name = .ok resolved := by
    rw [standing.scopes_eq]
    exact found
  exact ⟨e', (bind_of_ok (resolve_of_ok known)).trans done, after⟩

/-! ## Content -/

/-- Text that its alphabet cannot pack is written plainly, so that all acceptable content is. -/
theorem leads_callWith {toCall : Content → Call} {content : Content}
    (turn : ∀ content, (toCall content).isAllowed stage depth = true)
    (next : ∀ content, (toCall content).stageAfter = stage' ∧
      Writer.depthAfter depth (toCall content) = depth)
    (makeable : ∀ content, content.IsAcceptable c → content.Packs c →
      (toCall content).IsMakeable c)
    (refuses : ∀ id characters refusal w, characters ≠ "" →
      c.alphabets.encode id characters = .error refusal →
        Writer.carryOut c (toCall (.restricted id characters)) w = .error (.alphabet refusal) w)
    (acceptable : content.IsAcceptable c) :
    Leads (Standing stage depth opened) (callWith c toCall content)
      (Standing stage' depth opened) := by
  have packed (content : Content) (acceptable : content.IsAcceptable c)
      (packs : content.Packs c) : Leads (Standing stage depth opened)
        (Encoder.call c (toCall content)) (Standing stage' depth opened) := by
    have called : Leads (Standing stage depth opened) (Encoder.call c (toCall content)) _ :=
      leads_call (turn content) (makeable content acceptable packs)
    rwa [(next content).1, (next content).2] at called
  by_cases packs : content.Packs c
  · intro e standing
    obtain ⟨e', called, after⟩ := packed content acceptable packs e standing
    exact ⟨e', callWith_of_call called, after⟩
  · cases content with
    | restricted id characters =>
        simp only [Content.Packs, not_or] at packs
        obtain ⟨filled, unpacked⟩ := packs
        cases refused : c.alphabets.encode id characters with
        | ok octets => exact absurd ⟨octets, refused⟩ unpacked
        | error refusal =>
            intro e standing
            have allowed : (toCall (.restricted id characters)).isAllowed e.writer.stage
                e.writer.depth = true := by
              rw [standing.stage_eq, standing.depth_eq]
              exact turn _
            have active : e.writer.stage ≠ .poisoned := by
              intro poisoned
              rw [poisoned, Call.isAllowed_poisoned] at allowed
              cases allowed
            have failed : Encoder.call c (toCall (.restricted id characters)) e =
                .error (.alphabet refusal) e :=
              call_of_perform_error
                (Writer.perform_of_error active allowed (refuses _ _ _ _ filled refused))
            have plain : (Content.text characters).IsAcceptable c := ⟨trivial, acceptable.limited.1⟩
            obtain ⟨e', called, after⟩ := packed _ plain trivial e standing
            have plainly := callWith_of_refused failed
              (AlphabetRegistry.allowsPlainText_of_encode refused)
            exact ⟨e', plainly.trans called, after⟩
    | _ => exact absurd trivial packs

theorem leads_value {value : Content} (acceptable : value.IsAcceptable c) :
    Leads (Standing .value depth opened) (callWith c .attributeValue value)
      (Standing .attributes depth opened) :=
  leads_callWith (fun _ => rfl) (fun _ => ⟨rfl, rfl⟩)
    (fun _ => Call.isMakeable_attributeValue)
    (fun _ _ _ w filled refused => (Writer.carryOut_of_unpacked filled refused w).1) acceptable

theorem leads_characters {content : Content} (inside : 0 < depth)
    (acceptable : content.IsAcceptable c) :
    Leads (Standing .content depth opened) (callWith c .characters content)
      (Standing .content depth opened) :=
  leads_callWith (fun _ => by simp [Call.isAllowed, inside]) (fun _ => ⟨rfl, rfl⟩)
    (fun _ => Call.isMakeable_characters)
    (fun _ _ _ w filled refused => (Writer.carryOut_of_unpacked filled refused w).2) acceptable

/-! ## Starts of elements -/

theorem leads_writeDeclarations {ds : List NamespaceDeclaration}
    (acceptable : ∀ d ∈ ds, d.IsAcceptable) :
    Leads (Standing .marked depth opened)
      (if ds.isEmpty then pure () else writeDeclarations c ds)
      (Standing (if ds.isEmpty then .marked else .declared) depth opened) := by
  split
  · exact leads_pure _
  · apply (leads_plain rfl fun _ => rfl).bind
    apply Leads.bind (Q := Standing .declaring depth opened)
    · apply leads_forM
      intro d mem
      exact leads_call rfl (Call.isMakeable_declare (acceptable d mem).toIsWritable)
    · exact leads_plain rfl fun _ => rfl

theorem leads_writeAttribute {a : Attribute} (allowed : ∀ ds ∈ opened, ∀ d ∈ ds, d.IsAcceptable)
    (bound : a.name.IsBound opened) (limited : a.name.IsLimited)
    (acceptable : a.value.IsAcceptable c) :
    Leads (Standing .attributes depth opened) (writeAttribute c a)
      (Standing .attributes depth opened) := by
  apply leads_resolve (NamespaceScopes.resolveName_of_isBound bound
    (fun ds isOpen d mem => (allowed ds isOpen d mem).allowed) .attribute)
  apply (leads_call rfl _).bind
  · exact leads_value acceptable
  · apply Call.isMakeable_attributeName
    exact bound.isWritable_resolved limited
      (fun ds isOpen d mem => (allowed ds isOpen d mem).namespaceName_short) _

theorem leads_writeAttributes {as : List Attribute}
    (allowed : ∀ ds ∈ opened, ∀ d ∈ ds, d.IsAcceptable)
    (acceptable : ∀ a ∈ as, a.name.IsBound opened ∧ a.value.IsEncodable c)
    (limited : ∀ a ∈ as, a.name.IsLimited ∧ a.value.IsLimited c) :
    Leads (Standing .named depth opened) (if as.isEmpty then pure () else writeAttributes c as)
      (Standing (if as.isEmpty then .named else .attributes) depth opened) := by
  split
  · exact leads_pure _
  · apply (leads_plain rfl fun _ => rfl).bind
    apply leads_forM
    intro a mem
    obtain ⟨bound, encodable⟩ := acceptable a mem
    obtain ⟨short, value_short⟩ := limited a mem
    exact leads_writeAttribute allowed bound short ⟨encodable, value_short⟩

theorem leads_writeStart {name : QualifiedName} {ds : List NamespaceDeclaration}
    {as : List Attribute} (allowed : ∀ ds ∈ opened, ∀ d ∈ ds, d.IsAcceptable)
    (named : name.IsWritable) (declared : ∀ d ∈ ds, d.IsAcceptable)
    (attributed : ∀ a ∈ as, a.name.IsBound opened ∧ a.value.IsEncodable c)
    (limited : ∀ a ∈ as, a.name.IsLimited ∧ a.value.IsLimited c) :
    Leads (Standing .content depth opened) (writeStart c name ds as)
      (Standing .content (depth + 1) opened) := by
  have parts : Leads (Standing .marked depth opened) (writeParts c name ds as)
      (Standing (if as.isEmpty then .named else .attributes) depth opened) := by
    rw [writeParts_eq]
    apply (leads_writeDeclarations declared).bind
    apply (leads_call _ (Call.isMakeable_elementName named)).bind
    · exact leads_writeAttributes allowed attributed limited
    · split <;> rfl
  apply (leads_plain rfl fun _ => rfl).bind
  apply parts.bind
  apply leads_plain
  · split <;> rfl
  · exact fun _ => rfl

theorem leads_openScope {ds : List NamespaceDeclaration} (allowed : ∀ d ∈ ds, d.IsAllowed) :
    Leads (Standing stage depth opened) (openScope ds) (Standing stage depth (ds :: opened)) := by
  have declare (before : List NamespaceDeclaration) :
      Leads (Standing stage depth (before :: opened))
        (ds.forM fun d => scoping (·.declare d.nsPrefix d.namespaceName))
        (Standing stage depth ((before ++ ds) :: opened)) := by
    induction ds generalizing before with
    | nil =>
        rw [List.append_nil]
        exact leads_pure _
    | cons d ds ih =>
        obtain ⟨first, rest⟩ := List.forall_mem_cons.1 allowed
        rw [List.append_cons]
        apply Leads.bind _ (ih rest (before ++ [d]))
        apply leads_scoping
        obtain ⟨s, declared⟩ := NamespaceScopes.exists_declare first
        rw [declared, NamespaceScopes.declare_ofElements declared]
  apply Leads.bind _ (declare [])
  exact leads_scoping rfl

/-! ## Events -/

theorem acceptable_of_startElement {name : QualifiedName} {ds : List NamespaceDeclaration}
    {as : List Attribute} (acceptable : (Event.startElement name ds as).IsAcceptable c opened)
    (limited : (Event.startElement name ds as).IsLimited c) : ∀ d ∈ ds, d.IsAcceptable :=
  fun d mem =>
    ⟨⟨limited.2.1 d mem, (acceptable.1 d mem).2⟩, (acceptable.1 d mem).1⟩

theorem leads_startElement {name : QualifiedName} {ds : List NamespaceDeclaration}
    {as : List Attribute} (allowed : ∀ ds ∈ opened, ∀ d ∈ ds, d.IsAcceptable)
    (acceptable : (Event.startElement name ds as).IsAcceptable c opened)
    (limited : (Event.startElement name ds as).IsLimited c) :
    Leads (Standing .content depth opened) (writeEvent c (.startElement name ds as))
      (Standing .content (depth + 1) (ds :: opened)) := by
  have declared := acceptable_of_startElement acceptable limited
  have allowed' := List.forall_mem_cons.2 ⟨declared, allowed⟩
  obtain ⟨-, bound, attributed⟩ := acceptable
  obtain ⟨short, -, attributes_short⟩ := limited
  apply (leads_openScope fun d mem => (declared d mem).allowed).bind
  apply leads_resolve (NamespaceScopes.resolveName_of_isBound bound
    (fun ds isOpen d mem => (allowed' ds isOpen d mem).allowed) .element)
  apply leads_writeStart allowed' _ declared attributed attributes_short
  exact bound.isWritable_resolved short
    (fun ds isOpen d mem => (allowed' ds isOpen d mem).namespaceName_short) _

theorem leads_endElement {ds : List NamespaceDeclaration} :
    Leads (Standing .content (depth + 1) (ds :: opened)) (writeEvent c .endElement)
      (Standing .content depth opened) := by
  apply (leads_plain (by simp [Call.isAllowed]) fun _ => rfl).bind
  exact leads_scoping NamespaceScopes.pop_ofElements

/-- What stands between elements changes nothing about where the encoder stands. -/
theorem leads_leaf {event : Event} (isLeaf : eventNesting.leaf (decide (0 < depth)) event)
    (acceptable : event.IsAcceptable c opened) (limited : event.IsLimited c) :
    Leads (Standing .content depth opened) (writeEvent c event)
      (Standing .content depth opened) := by
  cases event with
  | characters content =>
      have inside : 0 < depth := by
        by_cases inside : 0 < depth
        · exact inside
        · rw [decide_eq_false inside] at isLeaf
          exact isLeaf.elim
      rw [writeEvent]
      split
      · exact leads_pure _
      · exact leads_characters inside ⟨acceptable, limited⟩
  | comment text =>
      rw [writeEvent]
      split
      · exact leads_pure _
      · exact leads_call rfl (Call.isMakeable_comment limited)
  | instruction target data =>
      rw [writeEvent]
      split
      · exact leads_pure _
      · exact leads_call rfl (Call.isMakeable_instruction acceptable limited.1 limited.2)
  | _ => cases decide (0 < depth) <;> exact isLeaf.elim

theorem leads_startDocument {header : DocumentHeader}
    (named : ∀ uri ∈ c.initialUri?, uri ≠ "" ∧ IsShort uri)
    (limited : (Event.startDocument header).IsLimited c) :
    Leads (Standing .idle depth opened) (writeEvent c (.startDocument header))
      (Standing .content depth opened) := by
  apply (leads_call rfl (Call.isMakeable_startDocument named limited)).bind
  exact leads_plain rfl fun _ => rfl

theorem leads_write {event : Event}
    (h : Leads (Standing stage depth opened) (writeEvent c event) Q) :
    Leads (Standing stage depth opened) (write c event) Q := by
  intro e standing
  rw [write, if_neg (by simp [standing.running])]
  exact h e standing

theorem openedAfter_of_leaf {inside : Bool} {event : Event}
    (isLeaf : eventNesting.leaf inside event) : event.openedAfter opened = opened := by
  cases event with
  | startElement | endElement => cases inside <;> exact isLeaf.elim
  | _ => rfl

/-- The encoder accepts all events up to the end of the open elements and what follows them. -/
theorem leads_forM_write {events : List Event}
    (closing : eventNesting.Closing opened.length events)
    (acceptable : c.AcceptableIn opened events) (limited : ∀ event ∈ events, event.IsLimited c)
    (allowed : ∀ ds ∈ opened, ∀ d ∈ ds, d.IsAcceptable) :
    Leads (Standing .content opened.length opened) (events.forM (write c))
      (Standing .content 0 []) := by
  induction events generalizing opened with
  | nil =>
      cases opened with
      | nil => exact leads_pure _
      | cons ds opened => cases closing.eq_zero_of_nil
  | cons event events ih =>
      obtain ⟨first, rest⟩ := acceptable
      obtain ⟨short, later⟩ := List.forall_mem_cons.1 limited
      have single : ∀ first, eventNesting.start first → ∃ y, first = [y] := by
        rintro first ⟨name, ds, as, rfl⟩
        exact ⟨_, rfl⟩
      rcases closing.cons_cases single with ⟨isLeaf, closing'⟩ | ⟨isStart, closing'⟩ |
        ⟨rfl, outer, isOpen, closing'⟩
      · apply (leads_write (leads_leaf isLeaf first short)).bind
        rw [openedAfter_of_leaf isLeaf] at rest
        exact ih closing' rest later allowed
      · obtain ⟨name, ds, as, same⟩ := isStart
        cases same
        apply (leads_write (leads_startElement allowed first short)).bind
        have declared := acceptable_of_startElement first short
        exact @ih (ds :: opened) closing' rest later (List.forall_mem_cons.2 ⟨declared, allowed⟩)
      · cases opened with
        | nil => cases isOpen
        | cons ds opened =>
            cases isOpen
            apply (leads_write leads_endElement).bind
            exact ih closing' rest later fun ds' mem => allowed ds' (List.mem_cons_of_mem _ mem)

end Encoder

/-! ## Documents -/

/-- A writer whose elements are all closed ends the document. -/
theorem Writer.exists_endDocument {w : Writer} (stage : w.stage = .content) (depth : w.depth = 0)
    (sink : w.sink = { written := w.sink.written }) : ∃ w', endDocument w = .ok () w' := by
  have settled : w.terminate.settle.sink = w.sink := by rw [settle_eq, sink_terminate]
  rw [endDocument, if_neg (by simp [stage]), if_neg (by simp [stage]), if_neg (by simp [depth]),
    finish]
  rw [settled, sink]
  exact ⟨_, rfl⟩

namespace Codec

variable {c : Codec}

/-- The encoder of a document accepts its start and its nested events. -/
theorem exists_forM_write {header : DocumentHeader} {body : List Event}
    (named : ∀ uri ∈ c.initialUri?, uri ≠ "" ∧ IsShort uri)
    (nested : eventNesting.Items false body) (acceptable : c.AcceptableIn [] body)
    (limited : ∀ event ∈ .startDocument header :: body, event.IsLimited c) :
    ∃ e, (Event.startDocument header :: body).forM (Encoder.write c) (c.encoder {}) = .ok () e ∧
      e.Standing .content 0 [] := by
  obtain ⟨first, rest⟩ := List.forall_mem_cons.1 limited
  have standing : (c.encoder {}).Standing .idle 0 [] := ⟨rfl, rfl, rfl, rfl, rfl⟩
  have start : Encoder.Leads (Encoder.Standing .idle 0 [])
      (Encoder.write c (.startDocument header)) (Encoder.Standing .content 0 []) :=
    Encoder.leads_write (Encoder.leads_startDocument named first)
  have leads := @Encoder.leads_forM_write c [] body (.last nested) acceptable rest nofun
  exact start.bind leads _ standing

/-- Once all elements are closed, the document can end with its last event as well as without. -/
theorem exists_encode_of_standing {events ending : List Event} {e : Encoder}
    (written : events.forM (Encoder.write c) (c.encoder {}) = .ok () e)
    (standing : e.Standing .content 0 []) (last : ending = [] ∨ ending = [.endDocument]) :
    ∃ document, c.encode (events ++ ending) = .ok document := by
  obtain ⟨w, ended⟩ :=
    Writer.exists_endDocument standing.stage_eq standing.depth_eq standing.sink_eq
  rcases last with rfl | rfl
  · rw [List.append_nil]
    exact ⟨_, encode_of_endDocument written ended⟩
  · have ended_written : (events ++ [Event.endDocument]).forM (Encoder.write c) (c.encoder {}) =
        .ok () { e with ended := true } := by
      refine (forM_append_of_ok written).trans ?_
      apply bind_of_ok
      rw [Encoder.write, if_neg (by simp [standing.running])]
      rfl
    exact ⟨_, encode_of_endDocument ended_written ended⟩

/-- Every document whose elements are nested and whose events are acceptable where they stand is
encoded, whether its end is among the events or not. -/
theorem encode_of_acceptable (c : Codec)
    (named : ∀ uri ∈ c.initialUri?, uri ≠ "" ∧ IsShort uri) (header : DocumentHeader)
    (body ending : List Event) (nested : eventNesting.Items false body)
    (acceptable : c.AcceptableIn [] body)
    (limited : ∀ event ∈ .startDocument header :: body, event.IsLimited c)
    (last : ending = [] ∨ ending = [.endDocument]) :
    ∃ document, c.encode (.startDocument header :: body ++ ending) = .ok document := by
  obtain ⟨e, written, standing⟩ := exists_forM_write named nested acceptable limited
  exact exists_encode_of_standing written standing last

/-- An element whose name is given by a prefix that it declares, with a typed value and with text
over an alphabet that nobody registered. -/
def prefixedBody : List Event :=
  [.startElement { nsPrefix := "p", localName := "a" }
      [{ nsPrefix := "p", namespaceName := "urn:p" }]
      [⟨{ localName := "b" }, .typed 3 (.ints [7])⟩],
    .characters (.restricted 40 "x"), .endElement]

theorem encode_of_acceptable_prefixedBody :
    eventNesting.Items false prefixedBody ∧ ({} : Codec).AcceptableIn [] prefixedBody ∧
      (∀ event ∈ .startDocument {} :: prefixedBody, event.IsLimited {}) ∧
      ∃ document, ({} : Codec).encode (.startDocument {} :: prefixedBody ++ [.endDocument]) =
        .ok document := by
  have content : eventNesting.Items true [.characters (.restricted 40 "x")] := .leaf trivial .nil
  have isStart : eventNesting.start [prefixedBody.head (by decide)] := ⟨_, _, _, rfl⟩
  have nested : eventNesting.Items false prefixedBody := .element isStart content .nil
  have declared : ({ nsPrefix := "p", namespaceName := "urn:p" } :
      NamespaceDeclaration).IsAllowed := by
    simp [NamespaceDeclaration.IsAllowed, xmlNamespace, xmlnsNamespace]
  have acceptable : ({} : Codec).AcceptableIn [] prefixedBody := by
    refine ⟨⟨?_, ⟨by decide, fun _ => .inr (by decide)⟩, ?_⟩, trivial, trivial, trivial⟩
    · intro d mem
      cases List.mem_singleton.1 mem
      exact ⟨declared, fun _ => by decide⟩
    · intro a mem
      cases List.mem_singleton.1 mem
      exact ⟨⟨by decide, fun prefixed => absurd rfl prefixed⟩, [0, 0, 0, 7], rfl⟩
  have limited : ∀ event ∈ .startDocument {} :: prefixedBody, event.IsLimited {} := by
    simp only [prefixedBody, List.forall_mem_cons, Event.IsLimited]
    refine ⟨nofun, ⟨⟨by decide, by decide, by decide⟩, ?_, ?_⟩, ⟨by decide, nofun⟩, trivial, nofun⟩
    · exact ⟨⟨by decide, by decide⟩, nofun⟩
    · refine ⟨⟨⟨by decide, by decide, by decide⟩, ?_⟩, nofun⟩
      intro octets encoded
      cases encoded
      decide
  exact ⟨nested, acceptable, limited,
    encode_of_acceptable {} nofun {} prefixedBody [.endDocument] nested acceptable limited
      (.inr rfl)⟩

end Codec

end BinaryXml
