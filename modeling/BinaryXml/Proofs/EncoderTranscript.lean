import BinaryXml.Proofs.EncoderCalls
import BinaryXml.Proofs.NormalForm
import BinaryXml.Proofs.SessionRoundTrip
import BinaryXml.Proofs.WriterErrors

/-!
# What an encoder writes

An encoder that accepts an event has made a session of its writer, and the transcript of that
session is the normal form of the event.
-/

namespace BinaryXml

namespace Writer

variable {c : Codec} {call : Call} {w w' : Writer}

/-- A call fails for an alphabet only if it cannot pack the text. -/
theorem encode_of_perform {id : UInt8} {characters : String} {cause : AlphabetError}
    (content : call.content? = some (.restricted id characters))
    (h : perform c call w = .error (.alphabet cause) w') :
    c.alphabets.encode id characters = .error cause := by
  rcases perform_eq_error h with ⟨-, ⟨p, other⟩, -⟩ | ⟨unmade, -⟩ | blocked
  · cases other
  · rcases Call.item?_eq_error unmade with ⟨f, other⟩ | ⟨⟨v, other⟩, -⟩ | ⟨content', _, given, failed⟩
    · cases other
    · cases other
    · cases content.symm.trans given
      rcases Tables.represent?_eq_error failed with
        ⟨_, _, _, same, because, refused⟩ | ⟨_, _, _, other, -⟩
      · cases same
        cases because
        exact refused
      · cases other
  · obtain ⟨reason, other⟩ := blocked.cause_eq
    cases other

end Writer

/-! ## Sessions that encoders make -/

namespace Session

variable {c : Codec} {readable readable' : Prop} {s s' s'' : Session}

/-- Some actions lead from `s` to `s'`, and their content is readable if `readable` holds. -/
def Reaches (c : Codec) (readable : Prop) (s s' : Session) : Prop :=
  ∃ actions, s.run c actions = s' ∧ (readable → ∀ a ∈ actions, a.IsReadable c)

theorem Reaches.refl (c : Codec) (readable : Prop) (s : Session) : Reaches c readable s s :=
  ⟨[], rfl, fun _ => nofun⟩

theorem Reaches.trans (h : Reaches c readable s s') (h' : Reaches c readable s' s'') :
    Reaches c readable s s'' := by
  obtain ⟨actions, rfl, known⟩ := h
  obtain ⟨actions', rfl, known'⟩ := h'
  refine ⟨actions ++ actions', List.foldl_append, fun r => ?_⟩
  exact List.forall_mem_append.2 ⟨known r, known' r⟩

theorem Reaches.mono (h : Reaches c readable s s') (weaker : readable' → readable) :
    Reaches c readable' s s' := by
  obtain ⟨actions, same, known⟩ := h
  exact ⟨actions, same, fun r => known (weaker r)⟩

end Session

namespace Encoder

variable {c : Codec} {readable : Prop} {e e' e'' : Encoder} {t t' t'' : Transcript}

/-- The encoder `e'` has called the writer of `e`, and `t` has become `t'`. -/
structure Calls (c : Codec) (readable : Prop) (e : Encoder) (t : Transcript) (e' : Encoder)
    (t' : Transcript) : Prop where
  reaches : Session.Reaches c readable ⟨e.writer, t⟩ ⟨e'.writer, t'⟩
  kept : e' = { e with writer := e'.writer }

theorem Calls.refl (c : Codec) (readable : Prop) (e : Encoder) (t : Transcript) :
    Calls c readable e t e t :=
  ⟨.refl _ _ _, rfl⟩

theorem Calls.trans (h : Calls c readable e t e' t') (h' : Calls c readable e' t' e'' t'') :
    Calls c readable e t e'' t'' := by
  refine ⟨h.reaches.trans h'.reaches, ?_⟩
  rw [h'.kept, h.kept]

theorem Calls.scopes_eq (h : Calls c readable e t e' t') : e'.scopes = e.scopes := by
  rw [h.kept]

theorem calls_of_call {call : Call} (h : Encoder.call c call e = .ok () e')
    (known : readable → Action.IsReadable c (.call call)) :
    Calls c readable e t e' (t.note c e.writer.tables.vocabulary call) := by
  obtain ⟨⟨reply, performed⟩, kept⟩ := call_eq_ok h
  refine ⟨⟨[.call call], ?_, fun r => List.forall_mem_singleton.2 (known r)⟩, kept⟩
  exact Session.act_of_perform (s := ⟨e.writer, t⟩) performed

/-- A call without content. -/
theorem calls_of_plain {call : Call} (h : Encoder.call c call e = .ok () e')
    (plain : call.content? = none) :
    Calls c readable e t e' (t.note c e.writer.tables.vocabulary call) := by
  refine calls_of_call h fun _ content given => ?_
  rw [plain] at given
  cases given

/-! ## Content -/

/-- Content is called with the form in which it is written, unless it carries nothing. -/
theorem shown_of_callWith (toCall : Content → Call) {content : Content}
    (given : ∀ content, (toCall content).content? = some content)
    (h : callWith c toCall content e = .ok () e') :
    ∃ shown, Encoder.call c (toCall shown) e = .ok () e' ∧
      (shown = content ∨ ∃ characters, shown = .text characters) ∧
      (shown = content.written c ∨
        shown.isVacuous c = true ∧ (content.written c).isVacuous c = true) := by
  rcases callWith_eq_ok h with called | ⟨id, characters, cause, rfl, allowed, refused, called⟩
  · refine ⟨content, called, .inl rfl, ?_⟩
    cases content with
    | restricted id characters =>
        obtain ⟨⟨reply, performed⟩, -⟩ := call_eq_ok called
        obtain ⟨kind, r?, represented⟩ := Writer.represented_of_perform (given _) performed
        rw [Content.isVacuous_written]
        unfold Tables.represent? at represented
        dsimp only at represented
        split at represented
        · next empty => exact .inr ⟨empty, empty⟩
        · split at represented
          · next encoded =>
              left
              rw [Content.written, Content.isPackable_eq, encoded]
              rfl
          · cases represented
    | _ => exact .inl rfl
  · refine ⟨.text characters, called, .inr ⟨characters, rfl⟩, .inl ?_⟩
    obtain ⟨performed, -⟩ := call_eq_error refused
    cases cause with
    | alphabet cause =>
        rw [Content.written, Content.isPackable_eq,
          Writer.encode_of_perform (given _) performed]
        rfl
    | _ => cases allowed

theorem calls_of_callWith (toCall : Content → Call) (t : Transcript) {content : Content}
    (given : ∀ content, (toCall content).content? = some content)
    (h : callWith c toCall content e = .ok () e') (known : readable → content.IsReadable c) :
    ∃ shown, Calls c readable e t e' (t.note c e.writer.tables.vocabulary (toCall shown)) ∧
      (shown = content.written c ∨
        shown.isVacuous c = true ∧ (content.written c).isVacuous c = true) := by
  obtain ⟨shown, called, origin, form⟩ := shown_of_callWith toCall given h
  refine ⟨shown, calls_of_call called fun r content' given' => ?_, form⟩
  rw [given] at given'
  cases given'
  rcases origin with rfl | ⟨characters, rfl⟩
  · exact known r
  · trivial

theorem calls_of_characters {content : Content} (h : callWith c .characters content e = .ok () e')
    (known : readable → content.IsReadable c) :
    Calls c readable e t e'
      (if content.isVacuous c then t else t.append (.characters (content.written c))) := by
  obtain ⟨shown, calls, form⟩ := calls_of_callWith .characters t (fun _ => rfl) h known
  rw [← Content.isVacuous_written]
  rcases form with rfl | ⟨empty, empty'⟩
  · exact calls
  · rw [Transcript.note, if_pos empty] at calls
    rwa [if_pos empty']

theorem calls_of_value {value : Content} (h : callWith c .attributeValue value e = .ok () e')
    (known : readable → value.IsReadable c) :
    Calls c readable e t e' { t with attributes :=
      t.attributes ++ [{ name := t.attributeName, value := (value.written c).asValue c }] } := by
  obtain ⟨shown, calls, form⟩ := calls_of_callWith .attributeValue t (fun _ => rfl) h known
  rcases form with rfl | ⟨empty, empty'⟩
  · exact calls
  · rw [Transcript.note, Content.asValue, if_pos empty] at calls
    rwa [Content.asValue, if_pos empty']

/-! ## Starts of elements -/

theorem calls_of_attribute {a : Attribute} {opened : List (List NamespaceDeclaration)}
    (scopes : e.scopes = .ofElements opened) (allowed : ∀ ds ∈ opened, ∀ d ∈ ds, d.IsAllowed)
    (h : writeAttribute c a e = .ok () e') (known : readable → a.value.IsReadable c) :
    ∃ attributeName, Calls c readable e t e'
      { t with attributeName, attributes := t.attributes ++ [a.normalised c opened] } := by
  obtain ⟨name, u, found, rest⟩ := bind_eq_ok h
  obtain ⟨resolved, rfl⟩ := resolve_eq_ok found
  rw [scopes] at resolved
  obtain ⟨_, v, named, valued⟩ := bind_eq_ok rest
  have naming : Calls c readable u t v { t with attributeName := name } :=
    calls_of_plain named rfl
  refine ⟨name, naming.trans ?_⟩
  rw [Attribute.normalised, ← NamespaceScopes.resolveName_eq_ok allowed resolved]
  exact calls_of_value valued known

theorem calls_of_attributes {as : List Attribute} {opened : List (List NamespaceDeclaration)}
    (scopes : e.scopes = .ofElements opened) (allowed : ∀ ds ∈ opened, ∀ d ∈ ds, d.IsAllowed)
    (h : as.forM (writeAttribute c) e = .ok () e')
    (known : readable → ∀ a ∈ as, a.value.IsReadable c) :
    ∃ attributeName, Calls c readable e t e'
      { t with
        attributeName, attributes := t.attributes ++ as.map (Attribute.normalised c opened) } := by
  induction as generalizing e t with
  | nil =>
      cases h
      rw [List.map_nil, List.append_nil]
      exact ⟨t.attributeName, .refl _ _ _ _⟩
  | cons a as ih =>
      obtain ⟨_, u, first, rest⟩ := bind_eq_ok h
      obtain ⟨_, calls⟩ := calls_of_attribute (t := t) scopes allowed first fun r =>
        known r a List.mem_cons_self
      obtain ⟨attributeName, calls'⟩ := ih (calls.scopes_eq.trans scopes) rest fun r b hb =>
        known r b (List.mem_cons_of_mem _ hb)
      rw [List.map_cons, List.append_cons]
      exact ⟨attributeName, calls.trans calls'⟩

theorem calls_of_declarations {ds : List NamespaceDeclaration}
    (h : (ds.forM fun d => Encoder.call c (.declare d.nsPrefix d.namespaceName)) e = .ok () e') :
    Calls c readable e t e' { t with declarations := t.declarations ++ ds } := by
  induction ds generalizing e t with
  | nil =>
      cases h
      rw [List.append_nil]
      exact .refl _ _ _ _
  | cons d ds ih =>
      obtain ⟨_, u, first, rest⟩ := bind_eq_ok h
      rw [List.append_cons]
      exact (calls_of_plain first rfl).trans (ih rest)

theorem calls_of_writeDeclarations {ds : List NamespaceDeclaration}
    (h : writeDeclarations c ds e = .ok () e') :
    Calls c readable e t e' { t with declarations := t.declarations ++ ds } := by
  obtain ⟨_, u, started, rest⟩ := bind_eq_ok h
  obtain ⟨_, v, declared, ended⟩ := bind_eq_ok rest
  exact ((calls_of_plain started rfl).trans (calls_of_declarations declared)).trans
    (calls_of_plain ended rfl)

/-- The start of an element is taken down part by part. -/
theorem calls_of_writeParts {name : QualifiedName} {ds : List NamespaceDeclaration}
    {as : List Attribute} {opened : List (List NamespaceDeclaration)}
    (scopes : e.scopes = .ofElements opened) (allowed : ∀ ds ∈ opened, ∀ d ∈ ds, d.IsAllowed)
    (h : writeParts c name ds as e = .ok () e')
    (known : readable → ∀ a ∈ as, a.value.IsReadable c) (events : List Event) :
    ∃ attributeName, Calls c readable e { events } e'
      { events, name, declarations := ds, attributes := as.map (Attribute.normalised c opened),
        attributeName } := by
  rw [writeParts_eq] at h
  obtain ⟨_, u, declared, rest⟩ := bind_eq_ok h
  obtain ⟨_, v, named, attributed⟩ := bind_eq_ok rest
  have declaring : Calls c readable e { events } u { events, declarations := ds } := by
    split at declared
    · next none =>
        cases declared
        rw [List.isEmpty_iff.1 none]
        exact .refl _ _ _ _
    · exact calls_of_writeDeclarations declared
  have naming : Calls c readable u { events, declarations := ds } v
      { events, name, declarations := ds } := calls_of_plain named rfl
  have before := declaring.trans naming
  split at attributed
  · next none =>
      cases attributed
      rw [List.isEmpty_iff.1 none]
      exact ⟨_, before⟩
  · obtain ⟨_, x, started, valued⟩ := bind_eq_ok attributed
    have starting : Calls c readable v { events, name, declarations := ds } x
        { events, name, declarations := ds } := calls_of_plain started rfl
    have start := before.trans starting
    obtain ⟨attributeName, calls⟩ :=
      calls_of_attributes (start.scopes_eq.trans scopes) allowed valued known
    exact ⟨attributeName, start.trans calls⟩

theorem calls_of_writeStart {name : QualifiedName} {ds : List NamespaceDeclaration}
    {as : List Attribute} {opened : List (List NamespaceDeclaration)}
    (scopes : e.scopes = .ofElements opened) (allowed : ∀ ds ∈ opened, ∀ d ∈ ds, d.IsAllowed)
    (h : writeStart c name ds as e = .ok () e')
    (known : readable → ∀ a ∈ as, a.value.IsReadable c) :
    Calls c readable e t e' { events := t.events ++
      [.startElement name ds (as.map (Attribute.normalised c opened))] } := by
  obtain ⟨_, u, marked, rest⟩ := bind_eq_ok h
  obtain ⟨_, v, parts, ended⟩ := bind_eq_ok rest
  have marking : Calls c readable e t u { events := t.events } := calls_of_plain marked rfl
  obtain ⟨attributeName, calls⟩ :=
    calls_of_writeParts (marking.scopes_eq.trans scopes) allowed parts known t.events
  exact (marking.trans calls).trans (calls_of_plain ended rfl)

/-! ## Events -/

end Encoder

/-- The content of an event is readable. -/
def Event.IsReadable (c : Codec) : Event → Prop
  | .startElement _ _ attributes => ∀ a ∈ attributes, a.value.IsReadable c
  | .characters content => content.IsReadable c
  | _ => True

namespace Encoder

/-- An event of a single call, unless the settings leave it out. -/
theorem reaches_of_optional {ignored : Bool} {call : Call} {event : Event}
    {opened : List (List NamespaceDeclaration)} (scopes : e.scopes = .ofElements opened)
    (allowed : ∀ ds ∈ opened, ∀ d ∈ ds, d.IsAllowed)
    (h : (if ignored then pure () else Encoder.call c call : Encoding Unit) e = .ok () e')
    (plain : call.content? = none)
    (noted : ∀ v, t.note c v call = t.append event) :
    ∃ t', Session.Reaches c readable ⟨e.writer, t⟩ ⟨e'.writer, t'⟩ ∧
      t'.events = t.events ++ (if ignored then none else some event).toList ∧
      e'.scopes = .ofElements opened ∧ ∀ ds ∈ opened, ∀ d ∈ ds, d.IsAllowed := by
  cases ignored with
  | true =>
      cases h
      exact ⟨t, .refl _ _ _, (List.append_nil _).symm, scopes, allowed⟩
  | false =>
      have calls : Calls c readable e t e' _ := calls_of_plain h plain
      rw [noted] at calls
      exact ⟨_, calls.reaches, rfl, calls.scopes_eq.trans scopes, allowed⟩

/-- An event that is accepted adds its normal form to the transcript. -/
theorem reaches_of_writeEvent {event : Event} {opened : List (List NamespaceDeclaration)}
    (scopes : e.scopes = .ofElements opened) (allowed : ∀ ds ∈ opened, ∀ d ∈ ds, d.IsAllowed)
    (h : writeEvent c event e = .ok () e') :
    ∃ t', Session.Reaches c (event.IsReadable c) ⟨e.writer, t⟩ ⟨e'.writer, t'⟩ ∧
      t'.events = t.events ++ (event.normalised? c opened).toList ∧
      e'.scopes = .ofElements (event.openedAfter opened) ∧
      ∀ ds ∈ event.openedAfter opened, ∀ d ∈ ds, d.IsAllowed := by
  cases event with
  | startDocument header =>
      obtain ⟨_, u, started, initiated⟩ := bind_eq_ok h
      have calls : Calls c True e t e' _ :=
        (calls_of_plain started rfl).trans (calls_of_plain initiated rfl)
      exact ⟨_, calls.reaches, rfl, calls.scopes_eq.trans scopes, allowed⟩
  | startElement name ds as =>
      obtain ⟨_, u, opening, rest⟩ := bind_eq_ok h
      obtain ⟨resolved, v, found, written⟩ := bind_eq_ok rest
      obtain ⟨found, rfl⟩ := resolve_eq_ok found
      obtain ⟨inner, accepted⟩ := openScope_eq_ok scopes opening
      have allowed' := List.forall_mem_cons.2 ⟨accepted, allowed⟩
      rw [inner] at found
      have calls : Calls c (∀ a ∈ as, a.value.IsReadable c) v t e' _ :=
        calls_of_writeStart inner allowed' written fun r => r
      have same := (after_openScope ds e).1
      rw [after_of_ok opening] at same
      rw [← same]
      refine ⟨_, calls.reaches, ?_, calls.scopes_eq.trans inner, allowed'⟩
      rw [NamespaceScopes.resolveName_eq_ok allowed' found]
      rfl
  | characters content =>
      rw [writeEvent] at h
      rw [Event.normalised?]
      split at h
      · next ignored =>
          cases h
          rw [ignored, Bool.true_or, if_pos rfl]
          exact ⟨t, .refl _ _ _, (List.append_nil _).symm, scopes, allowed⟩
      · next taken =>
          have calls : Calls c (content.IsReadable c) e t e' _ :=
            calls_of_characters h fun r => r
          refine ⟨_, calls.reaches, ?_, calls.scopes_eq.trans scopes, allowed⟩
          rw [Bool.not_eq_true] at taken
          rw [taken, Bool.false_or]
          split
          · exact (List.append_nil _).symm
          · rfl
  | comment text =>
      rw [writeEvent] at h
      exact reaches_of_optional scopes allowed h rfl fun _ => rfl
  | instruction target data =>
      rw [writeEvent] at h
      exact reaches_of_optional scopes allowed h rfl fun _ => rfl
  | endElement =>
      obtain ⟨_, u, called, popped⟩ := bind_eq_ok h
      have calls : Calls c True e t u _ := calls_of_plain called rfl
      obtain ⟨closed, kept⟩ := scoping_eq_ok popped
      have same : e'.writer = u.writer := by rw [kept]
      rw [calls.scopes_eq, scopes] at closed
      rw [same]
      refine ⟨_, calls.reaches, rfl, ?_, ?_⟩
      · cases opened with
        | nil => cases closed
        | cons ds outer =>
            rw [NamespaceScopes.pop_ofElements] at closed
            injection closed with inner
            exact inner.symm
      · exact fun ds inside => allowed ds (List.mem_of_mem_tail inside)
  | endDocument =>
      cases h
      exact ⟨t, .refl _ _ _, (List.append_nil _).symm, scopes, allowed⟩

theorem reaches_of_forM {events : List Event} {opened : List (List NamespaceDeclaration)}
    (scopes : e.scopes = .ofElements opened) (allowed : ∀ ds ∈ opened, ∀ d ∈ ds, d.IsAllowed)
    (h : events.forM (write c) e = .ok () e') :
    ∃ t', Session.Reaches c (∀ event ∈ events, event.IsReadable c) ⟨e.writer, t⟩
        ⟨e'.writer, t'⟩ ∧
      t'.events = t.events ++ c.normalisedIn opened events := by
  induction events generalizing e t opened with
  | nil =>
      cases h
      exact ⟨t, .refl _ _ _, (List.append_nil _).symm⟩
  | cons event events ih =>
      obtain ⟨_, u, first, rest⟩ := bind_eq_ok h
      unfold write at first
      split at first
      · cases first
      · obtain ⟨t₁, reaches, noted, scopes', allowed'⟩ :=
          reaches_of_writeEvent (t := t) scopes allowed first
        obtain ⟨t₂, reaches', noted'⟩ := ih (t := t₁) scopes' allowed' rest
        refine ⟨t₂, ?_, ?_⟩
        · exact (reaches.mono fun r => r event List.mem_cons_self).trans
            (reaches'.mono fun r other inside => r other (List.mem_cons_of_mem _ inside))
        · rw [noted', noted, Codec.normalisedIn, List.append_assoc]

end Encoder

end BinaryXml
