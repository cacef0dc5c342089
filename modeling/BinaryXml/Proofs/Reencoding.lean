import BinaryXml.Proofs.DocumentRoundTrip
import BinaryXml.Proofs.UnregisteredContent

/-!
# Encoding again what was decoded

A document can be read and written again by a codec that lacks the algorithms and alphabets that
were registered with the first one. Call by call, the second encoder goes through the states of the
first: its writer is given content that has the same representation, so it makes the same items and
the same entries. Hence the second document has the octets of the first.
-/

namespace BinaryXml

namespace Tables

variable {c : Codec} {t : Tables} {kind : StringKind} {content : Content}

/-- What is left of content has the representation that the content had. -/
theorem represent?_unregistered {r : Representation}
    (h : t.represent? c kind content = .ok (some r)) :
    t.represent? c.withoutRegistrations kind (content.unregistered c) = .ok (some r) := by
  cases content with
  | restricted id characters =>
      rw [represent?] at h
      rcases Content.unregistered_restricted_cases c id characters with
        ⟨a, known, same⟩ | ⟨octets, -, encoded, same⟩ | ⟨cause, refused, same⟩
      · rw [same, represent?, Codec.withoutRegistrations_alphabets,
          AlphabetRegistry.encode_of_builtin known c.alphabets]
        exact h
      · rw [encoded] at h
        rw [same]
        split at h <;> cases h
        rfl
      · rw [refused] at h
        split at h <;> cases h
  | typed id value =>
      rw [represent?] at h
      rcases Content.unregistered_typed_cases c id value with
        ⟨a, known, same⟩ | ⟨octets, -, encoded, same⟩ | ⟨cause, -, refused, same⟩
      · rw [same, represent?, Codec.withoutRegistrations_algorithms,
          AlgorithmRegistry.encode_of_builtin known c.algorithms]
        exact h
      · rw [encoded] at h
        dsimp only at h
        rw [same]
        split at h <;> cases h
        rfl
      · rw [refused] at h
        cases h
  | _ => exact h

theorem represent?_asValue {r? : Option Representation}
    (h : t.represent? c kind content = .ok r?) :
    t.represent? c.withoutRegistrations kind ((content.asValue c).unregistered c) = .ok r? := by
  have vacuous := isVacuous_of_represent h
  cases r? with
  | none =>
      have plain : content.asValue c = .text "" := if_pos vacuous
      rw [plain]
      rfl
  | some r =>
      have whole : content.asValue c = content := if_neg (by simp [vacuous])
      rw [whole]
      exact represent?_unregistered h

end Tables

/-! ## Calls -/

namespace Writer

variable {c : Codec} {call : Call} {w w' : Writer} {reply : Reply} {content : Content}

/-- Calls without content do not ask what is registered. -/
theorem carryOut_unregistered (plain : call.content? = none) :
    carryOut c.withoutRegistrations call = carryOut c call := by
  cases call with
  | attributeValue | characters => cases plain
  | _ => rfl

theorem carryOut_value_unregistered {r? : Option Representation}
    (h : w.tables.represent? c .attributeValue content = .ok r?) :
    carryOut c.withoutRegistrations (.attributeValue ((content.asValue c).unregistered c)) w =
      carryOut c (.attributeValue content) w := by
  have item : Item.ofValue c.withoutRegistrations w.tables
      ((content.asValue c).unregistered c) = Item.ofValue c w.tables content := by
    rw [Item.ofValue, Item.ofValue, h, Tables.represent?_asValue h]
    rfl
  simp only [carryOut, writeNew, item]

theorem carryOut_characters_unregistered {r : Representation}
    (h : w.tables.represent? c .characterChunk content = .ok (some r)) :
    carryOut c.withoutRegistrations (.characters (content.unregistered c)) w =
      carryOut c (.characters content) w := by
  have item? : Item.ofCharacters? c.withoutRegistrations w.tables (content.unregistered c) =
      Item.ofCharacters? c w.tables content := by
    rw [Item.ofCharacters?, Item.ofCharacters?, h, Tables.represent?_unregistered h]
    rfl
  simp only [carryOut, item?]

theorem perform_unregistered (plain : call.content? = none) :
    perform c.withoutRegistrations call = perform c call := by
  funext w
  simp only [perform, carryOut_unregistered plain]

/-- Calls of one turn that do the same succeed together. -/
theorem perform_of_same {c' : Codec} {call' : Call} (h : perform c call w = .ok reply w')
    (turn : call'.isAllowed w.stage w.depth = call.isAllowed w.stage w.depth)
    (next : call'.stageAfter = call.stageAfter) (same : carryOut c' call' w = carryOut c call w) :
    ∃ reply', perform c' call' w = .ok reply' w' := by
  have active : w.stage ≠ .poisoned := by
    intro poisoned
    rw [perform_of_poisoned poisoned] at h
    cases h
  obtain ⟨allowed, u, done, rfl⟩ := perform_eq_ok h
  rw [← same] at done
  rw [← next]
  exact ⟨_, perform_of_carryOut active (turn.trans allowed) done⟩

end Writer

/-- A name that was resolved is resolved to itself. -/
theorem NamespaceScopes.resolveName_resolved {s : NamespaceScopes} {kind : NameKind}
    {name resolved : QualifiedName} (h : s.resolveName kind name = .ok resolved) :
    s.resolveName kind resolved = .ok resolved := by
  unfold resolveName at h ⊢
  by_cases given : resolved.hasNamespace = true
  · rw [if_pos given]
  · split at h
    · cases h
      contradiction
    · split at h
      · dsimp only at h
        split at h
        · cases h
        · next bound =>
            cases h
            simp [QualifiedName.hasNamespace] at given
            simp [given] at bound
      · next plain =>
          rw [if_neg given]
          cases kind with
          | element =>
              cases h
              exact if_neg plain
          | _ =>
              cases h
              exact if_neg plain

namespace Encoder

variable {c : Codec} {e e' : Encoder} {opened : List (List NamespaceDeclaration)}

theorem call_unregistered {call : Call} (plain : call.content? = none) :
    Encoder.call c.withoutRegistrations call = Encoder.call c call := by
  simp only [Encoder.call, Writer.perform_unregistered plain]

theorem call_of_same {c' : Codec} {call call' : Call} (h : Encoder.call c call e = .ok () e')
    (turn : ∀ stage depth, call'.isAllowed stage depth = call.isAllowed stage depth)
    (next : call'.stageAfter = call.stageAfter)
    (same : Writer.carryOut c' call' e.writer = Writer.carryOut c call e.writer) :
    Encoder.call c' call' e = .ok () e' := by
  obtain ⟨⟨reply, performed⟩, kept⟩ := call_eq_ok h
  obtain ⟨reply', performed'⟩ := Writer.perform_of_same performed (turn _ _) next same
  rw [kept]
  exact call_of_perform performed'

/-- A value is called with the form that it has in the normal form. -/
theorem callWith_value_unregistered {value : Content}
    (h : callWith c .attributeValue value e = .ok () e') :
    callWith c.withoutRegistrations .attributeValue
      (((value.written c).asValue c).unregistered c) e = .ok () e' := by
  obtain ⟨shown, called, -, form⟩ := shown_of_callWith .attributeValue (fun _ => rfl) h
  have same : (value.written c).asValue c = shown.asValue c := by
    rcases form with rfl | ⟨empty, empty'⟩
    · rfl
    · rw [Content.asValue, if_pos empty', Content.asValue, if_pos empty]
  obtain ⟨⟨reply, performed⟩, -⟩ := call_eq_ok called
  obtain ⟨-, u, done, -⟩ := Writer.perform_eq_ok performed
  unfold Writer.carryOut at done
  obtain ⟨item, made, -⟩ := Writer.wrote_of_writeNew done
  obtain ⟨r?, represented, -⟩ := Item.ofValue_eq_ok made
  rw [same]
  apply callWith_of_call
  exact call_of_same called (fun _ _ => rfl) rfl (Writer.carryOut_value_unregistered represented)

/-- Characters are called with their normal form, and if there is none, nothing is done. -/
theorem callWith_characters_unregistered {content : Content}
    (h : callWith c .characters content e = .ok () e') :
    if content.isVacuous c then e' = e
    else callWith c.withoutRegistrations .characters
      ((content.written c).unregistered c) e = .ok () e' := by
  obtain ⟨shown, called, -, form⟩ := shown_of_callWith .characters (fun _ => rfl) h
  obtain ⟨⟨reply, performed⟩, kept⟩ := call_eq_ok called
  obtain ⟨allowed, u, done, after⟩ := Writer.perform_eq_ok performed
  have vacuous : shown.isVacuous c = content.isVacuous c := by
    rw [← Content.isVacuous_written content]
    rcases form with rfl | ⟨empty, empty'⟩
    · rfl
    · rw [empty, empty']
  rw [← vacuous]
  unfold Writer.carryOut at done
  dsimp only at done
  split at done
  · next item made =>
      obtain ⟨r, represented, -⟩ := Item.ofCharacters?_eq_some made
      have filled : shown.isVacuous c = false := Tables.isVacuous_of_represent represented
      have same : content.written c = shown := by
        rcases form with rfl | ⟨empty, -⟩
        · rfl
        · rw [filled] at empty
          cases empty
      rw [filled, same]
      apply callWith_of_call
      exact call_of_same called (fun _ _ => rfl) rfl
        (Writer.carryOut_characters_unregistered represented)
  · next made =>
      have empty : shown.isVacuous c = true := Item.isVacuous_of_ofCharacters? made
      rw [empty, if_pos rfl, kept, after]
      cases done
      -- The call is in turn in the stage that it leads to.
      simp only [Call.isAllowed, Bool.and_eq_true, decide_eq_true_eq] at allowed
      rw [Call.stageAfter, ← allowed.1]
  · cases done

/-! ## Elements -/

theorem writeDeclarations_unregistered (ds : List NamespaceDeclaration) :
    writeDeclarations c.withoutRegistrations ds = writeDeclarations c ds := by
  have start : Encoder.call c.withoutRegistrations .startDeclarations =
      Encoder.call c .startDeclarations := call_unregistered rfl
  have stop : Encoder.call c.withoutRegistrations .endDeclarations =
      Encoder.call c .endDeclarations := call_unregistered rfl
  have each (d : NamespaceDeclaration) :
      Encoder.call c.withoutRegistrations (.declare d.nsPrefix d.namespaceName) =
        Encoder.call c (.declare d.nsPrefix d.namespaceName) := call_unregistered rfl
  simp only [writeDeclarations, start, stop, each]

theorem writeAttribute_unregistered {a : Attribute} (scopes : e.scopes = .ofElements opened)
    (allowed : ∀ ds ∈ opened, ∀ d ∈ ds, d.IsAllowed) (h : writeAttribute c a e = .ok () e') :
    writeAttribute c.withoutRegistrations ((a.normalised c opened).unregistered c) e =
      .ok () e' := by
  obtain ⟨name, u, found, rest⟩ := bind_eq_ok h
  obtain ⟨resolved, rfl⟩ := resolve_eq_ok found
  obtain ⟨_, v, named, valued⟩ := bind_eq_ok rest
  have normal := resolved
  rw [scopes] at normal
  have again := resolve_of_ok (NamespaceScopes.resolveName_resolved resolved)
  rw [← call_unregistered rfl] at named
  rw [Attribute.normalised, ← NamespaceScopes.resolveName_eq_ok allowed normal]
  refine (bind_of_ok again).trans ((bind_of_ok named).trans ?_)
  exact callWith_value_unregistered valued

theorem attributes_unregistered {as : List Attribute} (scopes : e.scopes = .ofElements opened)
    (allowed : ∀ ds ∈ opened, ∀ d ∈ ds, d.IsAllowed)
    (h : as.forM (writeAttribute c) e = .ok () e') :
    ((as.map (Attribute.normalised c opened)).map (Attribute.unregistered c)).forM
      (writeAttribute c.withoutRegistrations) e = .ok () e' := by
  induction as generalizing e with
  | nil =>
      cases h
      rfl
  | cons a as ih =>
      obtain ⟨_, u, first, rest⟩ := bind_eq_ok h
      obtain ⟨_, calls⟩ : ∃ _, Calls c False e {} u _ :=
        calls_of_attribute scopes allowed first nofun
      rw [List.map_cons, List.map_cons,
        forM_of_ok (writeAttribute_unregistered scopes allowed first)]
      exact ih (calls.scopes_eq.trans scopes) rest

theorem scopes_of_declarations {ds : List NamespaceDeclaration}
    (h : (if ds.isEmpty then pure () else writeDeclarations c ds : Encoding Unit) e = .ok () e') :
    e'.scopes = e.scopes := by
  split at h
  · cases h
    rfl
  · have calls : Calls c False e {} e' _ := calls_of_writeDeclarations h
    exact calls.scopes_eq

theorem writeParts_unregistered {name : QualifiedName} {ds : List NamespaceDeclaration}
    {as : List Attribute} (scopes : e.scopes = .ofElements opened)
    (allowed : ∀ ds ∈ opened, ∀ d ∈ ds, d.IsAllowed)
    (h : writeParts c name ds as e = .ok () e') :
    writeParts c.withoutRegistrations name ds
      ((as.map (Attribute.normalised c opened)).map (Attribute.unregistered c)) e =
        .ok () e' := by
  rw [writeParts_eq] at h ⊢
  obtain ⟨_, u, declared, rest⟩ := bind_eq_ok h
  obtain ⟨_, v, named, attributed⟩ := bind_eq_ok rest
  rw [writeDeclarations_unregistered, bind_of_ok declared, call_unregistered rfl, bind_of_ok named]
  simp only [List.isEmpty_map]
  split at attributed
  · next none =>
      rw [if_pos none]
      exact attributed
  · next some =>
      rw [if_neg some]
      obtain ⟨_, x, started, valued⟩ := bind_eq_ok attributed
      have scopes' : x.scopes = .ofElements opened := by
        rw [(call_eq_ok started).2, (call_eq_ok named).2, scopes_of_declarations declared]
        exact scopes
      rw [← call_unregistered rfl] at started
      exact (bind_of_ok started).trans (attributes_unregistered scopes' allowed valued)

theorem writeStart_unregistered {name : QualifiedName} {ds : List NamespaceDeclaration}
    {as : List Attribute} (scopes : e.scopes = .ofElements opened)
    (allowed : ∀ ds ∈ opened, ∀ d ∈ ds, d.IsAllowed)
    (h : writeStart c name ds as e = .ok () e') :
    writeStart c.withoutRegistrations name ds
      ((as.map (Attribute.normalised c opened)).map (Attribute.unregistered c)) e =
        .ok () e' := by
  obtain ⟨_, u, marked, rest⟩ := bind_eq_ok h
  obtain ⟨_, v, parts, ended⟩ := bind_eq_ok rest
  have scopes' : u.scopes = .ofElements opened := by
    rw [(call_eq_ok marked).2]
    exact scopes
  rw [← call_unregistered rfl] at marked ended
  refine (bind_of_ok marked).trans ?_
  refine (bind_of_ok (writeParts_unregistered scopes' allowed parts)).trans ?_
  exact ended

/-! ## Events -/

/-- Only the end of the document ends an encoder. -/
theorem ended_of_openScope {ds : List NamespaceDeclaration} (h : openScope ds e = .ok () e') :
    e'.ended = e.ended := by
  have kept : (after (openScope ds) e).ended = e.ended := by
    apply after_forM (P := fun u => u.ended = e.ended)
    · intro d u same
      cases declared : scoping (·.declare d.nsPrefix d.namespaceName) u with
      | ok _ u' =>
          rw [after_of_ok declared, (scoping_eq_ok declared).2]
          exact same
      | error cause u' =>
          rw [after_of_error declared, scoping_eq_error declared]
          exact same
    · rfl
  rwa [after_of_ok h] at kept

/-- The second encoder does with the normal form of an event what the first did with the event. -/
def Repeats (c : Codec) (opened : List (List NamespaceDeclaration)) (event : Event)
    (e e' : Encoder) : Prop :=
  e'.ended = e.ended ∧
    match event.normalised? c opened with
    | none => e' = e
    | some normal => writeEvent c.withoutRegistrations (normal.unregistered c) e = .ok () e'

/-- An event of a single call, unless the settings leave it out. -/
theorem repeats_of_optional {ignored : Bool} {call : Call} {event : Event}
    (plain : call.content? = none)
    (form : event.normalised? c opened = if ignored then none else some event)
    (again : writeEvent c.withoutRegistrations (event.unregistered c) =
      if ignored then pure () else Encoder.call c.withoutRegistrations call)
    (h : (if ignored then pure () else Encoder.call c call : Encoding Unit) e = .ok () e') :
    Repeats c opened event e e' := by
  unfold Repeats
  rw [form]
  cases ignored with
  | true =>
      cases h
      exact ⟨rfl, rfl⟩
  | false =>
      refine ⟨by rw [(call_eq_ok h).2], ?_⟩
      rw [if_neg Bool.false_ne_true] at again ⊢
      dsimp only
      rw [again, call_unregistered plain]
      exact h

theorem repeats_startDocument {header : DocumentHeader}
    (h : writeEvent c (.startDocument header) e = .ok () e') :
    Repeats c opened (.startDocument header) e e' := by
  obtain ⟨_, u, started, initiated⟩ := bind_eq_ok h
  refine ⟨by rw [(call_eq_ok initiated).2, (call_eq_ok started).2], ?_⟩
  have same : Encoder.call c.withoutRegistrations
      (.startDocument { header with externalVocabulary := c.initialUri? }) =
        Encoder.call c (.startDocument header) := by
    rfl
  rw [← same] at started
  rw [← call_unregistered rfl] at initiated
  exact (bind_of_ok started).trans initiated

theorem repeats_startElement {name : QualifiedName} {ds : List NamespaceDeclaration}
    {as : List Attribute} (scopes : e.scopes = .ofElements opened)
    (allowed : ∀ ds ∈ opened, ∀ d ∈ ds, d.IsAllowed)
    (h : writeEvent c (.startElement name ds as) e = .ok () e') :
    Repeats c opened (.startElement name ds as) e e' := by
  obtain ⟨_, u, opening, rest⟩ := bind_eq_ok h
  obtain ⟨resolved, v, found, written⟩ := bind_eq_ok rest
  obtain ⟨found, rfl⟩ := resolve_eq_ok found
  obtain ⟨inner, accepted⟩ := openScope_eq_ok scopes opening
  have allowed' := List.forall_mem_cons.2 ⟨accepted, allowed⟩
  have normal := found
  rw [inner] at normal
  have calls : Calls c False v {} e' _ := calls_of_writeStart inner allowed' written nofun
  refine ⟨by rw [calls.kept, ended_of_openScope opening], ?_⟩
  have again := resolve_of_ok (NamespaceScopes.resolveName_resolved found)
  have written' := writeStart_unregistered inner allowed' written
  dsimp only [Event.normalised?, Event.unregistered]
  rw [← NamespaceScopes.resolveName_eq_ok allowed' normal]
  exact (bind_of_ok opening).trans ((bind_of_ok again).trans written')

theorem repeats_characters {content : Content}
    (h : writeEvent c (.characters content) e = .ok () e') :
    Repeats c opened (.characters content) e e' := by
  rw [writeEvent] at h
  rw [Repeats, Event.normalised?]
  split at h
  · next ignored =>
      cases h
      rw [ignored, Bool.true_or, if_pos rfl]
      exact ⟨rfl, rfl⟩
  · next taken =>
      obtain ⟨shown, called, -⟩ := shown_of_callWith .characters (fun _ => rfl) h
      refine ⟨by rw [(call_eq_ok called).2], ?_⟩
      have again := callWith_characters_unregistered h
      rw [Bool.eq_false_iff.2 taken, Bool.false_or]
      by_cases empty : content.isVacuous c = true
      · rw [if_pos empty] at again ⊢
        exact again
      · rw [if_neg empty] at again ⊢
        dsimp only [Event.unregistered]
        rw [writeEvent]
        exact (congrFun (if_neg (Content.shown_unregistered taken)) e).trans again

theorem repeats_of_writeEvent {event : Event} (other : event ≠ .endDocument)
    (scopes : e.scopes = .ofElements opened) (allowed : ∀ ds ∈ opened, ∀ d ∈ ds, d.IsAllowed)
    (h : writeEvent c event e = .ok () e') : Repeats c opened event e e' := by
  cases event with
  | startDocument header => exact repeats_startDocument h
  | startElement name ds as => exact repeats_startElement scopes allowed h
  | characters content => exact repeats_characters h
  | comment text => exact repeats_of_optional rfl rfl rfl h
  | instruction target data => exact repeats_of_optional rfl rfl rfl h
  | endElement =>
      obtain ⟨_, u, called, popped⟩ := bind_eq_ok h
      refine ⟨by rw [(scoping_eq_ok popped).2, (call_eq_ok called).2], ?_⟩
      rw [← call_unregistered rfl] at called
      exact (bind_of_ok called).trans popped
  | endDocument => exact absurd rfl other

/-- The second encoder goes through the whole document with the first. -/
theorem forM_unregistered {events : List Event} (scopes : e.scopes = .ofElements opened)
    (allowed : ∀ ds ∈ opened, ∀ d ∈ ds, d.IsAllowed) (running : e.ended = false)
    (h : events.forM (write c) e = .ok () e') :
    ((c.normalisedIn opened events).map (Event.unregistered c)).forM
      (write c.withoutRegistrations) e = .ok () { e' with ended := false } := by
  induction events generalizing e opened with
  | nil =>
      cases h
      rw [← running]
      rfl
  | cons event events ih =>
      obtain ⟨_, u, first, rest⟩ := bind_eq_ok h
      rw [write, if_neg (by simp [running])] at first
      by_cases last : event = .endDocument
      · subst last
        cases first
        -- Nothing follows the end of the document.
        cases events with
        | nil =>
            cases rest
            rw [← running]
            rfl
        | cons other events =>
            obtain ⟨_, v, refused, -⟩ := bind_eq_ok rest
            cases refused
      · obtain ⟨kept, again⟩ := repeats_of_writeEvent last scopes allowed first
        obtain ⟨_, -, -, scopes', allowed'⟩ :=
          reaches_of_writeEvent (t := {}) scopes allowed first
        have later := ih scopes' allowed' (kept.trans running) rest
        rw [Codec.normalisedIn]
        cases form : event.normalised? c opened with
        | none =>
            rw [form] at again
            subst again
            exact later
        | some normal =>
            rw [form] at again
            have written : write c.withoutRegistrations (normal.unregistered c) e = .ok () u := by
              rw [write, if_neg (by simp [running])]
              exact again
            exact (forM_of_ok written).trans later

end Encoder

/-! ## Documents -/

namespace Event

variable {c : Codec} {opened : List (List NamespaceDeclaration)} {event normal : Event}

theorem openedAfter_normalised (h : event.normalised? c opened = some normal) :
    normal.openedAfter opened = event.openedAfter opened := by
  cases event with
  | endDocument => cases h
  | characters | comment | instruction =>
      rw [normalised?] at h
      split at h <;> cases h
      rfl
  | _ =>
      cases h
      rfl

/-- Only elements open and close anything, and these always have a normal form. -/
theorem openedAfter_of_dropped (h : event.normalised? c opened = none) :
    event.openedAfter opened = opened := by
  cases event with
  | startDocument | startElement | endElement => cases h
  | _ => rfl

end Event

namespace Codec

variable {c : Codec} {events : List Event} {document : Octets}

/-- What is left of a normal form is a normal form. -/
theorem normalisedIn_unregistered (c : Codec) (opened : List (List NamespaceDeclaration))
    (events : List Event) :
    c.withoutRegistrations.normalisedIn opened
        ((c.normalisedIn opened events).map (Event.unregistered c) ++ [.endDocument]) =
      (c.normalisedIn opened events).map (Event.unregistered c) := by
  induction events generalizing opened with
  | nil => rfl
  | cons event events ih =>
      rw [normalisedIn]
      cases form : event.normalised? c opened with
      | none =>
          rw [Event.openedAfter_of_dropped form]
          exact ih opened
      | some normal =>
          simp only [Option.toList_some, List.map_cons,
            List.cons_append, List.nil_append, normalisedIn,
            Event.normalised?_unregistered form, Event.openedAfter_unregistered,
            Event.openedAfter_normalised form, ih]

theorem isReadable_of_normalisedIn {opened : List (List NamespaceDeclaration)}
    (decoded : ∀ e ∈ events, e.IsDecoded) :
    ∀ e ∈ (c.normalisedIn opened events).map (Event.unregistered c),
      e.IsReadable c.withoutRegistrations := by
  induction events generalizing opened with
  | nil =>
      intro e mem
      cases mem
  | cons event events ih =>
      obtain ⟨first, rest⟩ := List.forall_mem_cons.1 decoded
      rw [normalisedIn, List.map_append]
      refine List.forall_mem_append.2 ⟨?_, ih rest⟩
      cases form : event.normalised? c opened with
      | none =>
          intro e mem
          cases mem
      | some normal => exact List.forall_mem_singleton.2 (Event.isReadable_unregistered first form)

/-- What was written with registered algorithms and alphabets is read and written again, octet by
octet, by the codec that lacks them. -/
theorem encode_decode_withoutRegistrations (c : Codec) (events : List Event) (document : Octets)
    (decoded : ∀ e ∈ events, e.IsDecoded) (encoded : c.encode events = .ok document) :
    ∃ events', c.withoutRegistrations.decode document = .ok events' ∧
      c.withoutRegistrations.encode events' = .ok document := by
  let left : List Event := (c.normalisedIn [] events).map (Event.unregistered c)
  have again : c.withoutRegistrations.encode (left ++ [.endDocument]) = .ok document := by
    obtain ⟨e, u, written, finished, rfl⟩ := forM_of_encode encoded
    have scopes : (c.encoder {}).scopes = .ofElements [] := rfl
    have replayed := Encoder.forM_unregistered scopes (fun _ => nofun) rfl written
    have ended : (left ++ [Event.endDocument]).forM (Encoder.write c.withoutRegistrations)
        (c.encoder {}) = .ok () { e with ended := true } :=
      (forM_append_of_ok replayed).trans rfl
    obtain ⟨done, -⟩ := Encoder.writing_eq_ok finished
    exact encode_of_endDocument ended done
  have readable : ∀ e ∈ left ++ [Event.endDocument], e.IsReadable c.withoutRegistrations :=
    List.forall_mem_append.2
      ⟨isReadable_of_normalisedIn decoded, List.forall_mem_singleton.2 trivial⟩
  refine ⟨left ++ [.endDocument], ?_, again⟩
  rw [decode_of_readable again readable, normalised, normalisedIn_unregistered]

/-! ## A document that was packed by a registered algorithm -/

/-- The algorithm leaves octets as they are. -/
def rawAlgorithm : Algorithm where
  uri := "urn:raw"
  encode
    | .octets os => .ok os
    | v => .error (.unsupportedValue "urn:raw" v.kind)
  decode os := .ok (.octets os)

def rawCodec : Codec :=
  { silentCodec with algorithms := ⟨[(40, rawAlgorithm)]⟩ }

def rawEvents : List Event :=
  [.startDocument { standalone := some true }, .startElement { localName := "a" } [] [],
    .characters (.typed 40 (.octets [7])), .endElement]

theorem encode_rawEvents :
    rawCodec.encode rawEvents =
      .ok [224, 0, 0, 1, 34, 16, 0, 6, 117, 114, 110, 58, 111, 110, 101, 1,
        0, 140, 160, 7, 255] := by
  have started : Encoder.write rawCodec (.startDocument { standalone := some true })
      (rawCodec.encoder {}) = .ok () silentEncoder := by rfl
  have opened : Encoder.write rawCodec (.startElement { localName := "a" } [] [])
      silentEncoder = .ok () silentInside := write_silentEncoder _
  have written : rawEvents.forM (Encoder.write rawCodec) (rawCodec.encoder {}) =
      (rawEvents.drop 2).forM (Encoder.write rawCodec) silentInside := by
    rw [rawEvents, forM_of_ok started, forM_of_ok opened]
    rfl
  exact encode_of_forM written rfl

theorem encode_decode_withoutRegistrations_rawCodec :
    rawCodec.encode rawEvents =
      .ok [224, 0, 0, 1, 34, 16, 0, 6, 117, 114, 110, 58, 111, 110, 101, 1,
        0, 140, 160, 7, 255] ∧
    ∃ events', rawCodec.withoutRegistrations.decode
        [224, 0, 0, 1, 34, 16, 0, 6, 117, 114, 110, 58, 111, 110, 101, 1,
          0, 140, 160, 7, 255] = .ok events' ∧
      rawCodec.withoutRegistrations.encode events' =
        .ok [224, 0, 0, 1, 34, 16, 0, 6, 117, 114, 110, 58, 111, 110, 101, 1,
          0, 140, 160, 7, 255] := by
  have decoded : ∀ e ∈ rawEvents, e.IsDecoded := by
    simp [rawEvents, Event.IsDecoded, Content.IsDecoded]
  exact ⟨encode_rawEvents,
    encode_decode_withoutRegistrations rawCodec rawEvents _ decoded encode_rawEvents⟩

end Codec

end BinaryXml
