import BinaryXml.Proofs.EncoderCalls

/-!
# Scopes and open elements

Between items an encoder has a scope for each open element, and one more for each element whose
start it refused: the element is not opened, but its scope stays. Names are looked up among the
declarations of the open elements exactly as long as no start was refused.
-/

namespace BinaryXml

/-- Between items, or before the first of them. -/
def Stage.isBetween : Stage → Bool
  | idle => true
  | started => true
  | content => true
  | _ => false

namespace Encoder

variable {α β : Type} {c : Codec} {e e' : Encoder}

def isBetween (e : Encoder) : Bool := e.writer.stage.isBetween

/-! ## Inside the start of an element -/

/-- A step that is not the last one of an item. -/
def StaysInside (p : Encoding α) : Prop :=
  ∀ e : Encoder, e.isBetween = false →
    (after p e).isBetween = false ∧
      ∀ a e', p e = .ok a e' → e'.writer.depth = e.writer.depth ∧ e'.scopes = e.scopes

theorem isBetween_of_unchanged (h : e' = e ∨ e'.writer.stage = .poisoned)
    (inside : e.isBetween = false) : e'.isBetween = false := by
  rcases h with rfl | poisoned
  · exact inside
  · rw [isBetween, poisoned]
    rfl

theorem staysInside_pure (a : α) : StaysInside (pure a : Encoding α) := by
  intro e inside
  refine ⟨inside, ?_⟩
  rintro _ _ ⟨⟩
  exact ⟨rfl, rfl⟩

theorem StaysInside.bind {p : Encoding α} {f : α → Encoding β} (first : StaysInside p)
    (second : ∀ a, StaysInside (f a)) : StaysInside (p >>= f) := by
  intro e inside
  obtain ⟨between, kept⟩ := first e inside
  refine ⟨?_, ?_⟩
  · rw [after_bind]
    cases done : p e with
    | ok a u =>
        rw [after_of_ok done] at between
        exact (second a u between).1
    | error cause u =>
        rw [after_of_error done] at between
        exact between
  · intro b e' ok
    obtain ⟨a, u, done, rest⟩ := bind_eq_ok ok
    rw [after_of_ok done] at between
    obtain ⟨depth, scopes⟩ := (second a u between).2 b e' rest
    exact ⟨depth.trans (kept a u done).1, scopes.trans (kept a u done).2⟩

theorem staysInside_forM {f : β → Encoding Unit} (step : ∀ x, StaysInside (f x)) (xs : List β) :
    StaysInside (xs.forM f) := by
  induction xs with
  | nil => exact staysInside_pure ()
  | cons x xs ih => exact (step x).bind fun _ => ih

theorem kept_of_call {call : Call} (inside : call.stageAfter.isBetween = false)
    (h : Encoder.call c call e = .ok () e') :
    e'.isBetween = false ∧ e'.writer.depth = e.writer.depth ∧ e'.scopes = e.scopes := by
  obtain ⟨⟨reply, performed⟩, kept⟩ := call_eq_ok h
  refine ⟨?_, ?_, by rw [kept]⟩
  · rw [isBetween, Writer.stage_of_perform performed]
    exact inside
  · rw [Writer.depth_of_perform performed]
    cases call with
    | endStartElement | endElement => cases inside
    | _ => rfl

theorem staysInside_call {call : Call} (inside : call.stageAfter.isBetween = false) :
    StaysInside (Encoder.call c call) := by
  intro e outside
  refine ⟨?_, fun _ e' done => (kept_of_call inside done).2⟩
  cases done : Encoder.call c call e with
  | ok _ e' =>
      rw [after_of_ok done]
      exact (kept_of_call inside done).1
  | error cause e' =>
      rw [after_of_error done]
      exact isBetween_of_unchanged (unchanged_of_call done) outside

theorem staysInside_resolve (kind : NameKind) (name : QualifiedName) :
    StaysInside (resolve kind name) := by
  intro e inside
  refine ⟨?_, ?_⟩
  · cases done : resolve kind name e with
    | ok _ e' => rwa [after_of_ok done, (resolve_eq_ok done).2]
    | error cause e' => rwa [after_of_error done, resolve_eq_error done]
  · intro _ e' done
    rw [(resolve_eq_ok done).2]
    exact ⟨rfl, rfl⟩

theorem staysInside_callWith {toCall : Content → Call}
    (inside : ∀ content, (toCall content).stageAfter.isBetween = false) (content : Content) :
    StaysInside (callWith c toCall content) := by
  have kept {e e' : Encoder} (done : callWith c toCall content e = .ok () e') :
      e'.isBetween = false ∧ e'.writer.depth = e.writer.depth ∧ e'.scopes = e.scopes := by
    rcases callWith_eq_ok done with done | ⟨id, characters, cause, rfl, -, -, done⟩
    · exact kept_of_call (inside _) done
    · exact kept_of_call (inside _) done
  intro e outside
  refine ⟨?_, fun _ e' done => (kept done).2⟩
  cases done : callWith c toCall content e with
  | ok _ e' =>
      rw [after_of_ok done]
      exact (kept done).1
  | error cause e' =>
      rw [after_of_error done]
      exact isBetween_of_unchanged (unchanged_of_callWith done) outside

theorem staysInside_writeDeclarations (ds : List NamespaceDeclaration) :
    StaysInside (writeDeclarations c ds) :=
  (staysInside_call rfl).bind fun _ =>
    (staysInside_forM (fun _ => staysInside_call rfl) ds).bind fun _ => staysInside_call rfl

theorem staysInside_writeAttribute (a : Attribute) : StaysInside (writeAttribute c a) :=
  (staysInside_resolve _ _).bind fun _ => (staysInside_call rfl).bind fun _ =>
    staysInside_callWith (fun _ => rfl) a.value

theorem staysInside_writeParts (name : QualifiedName) (ds : List NamespaceDeclaration)
    (attributes : List Attribute) : StaysInside (writeParts c name ds attributes) := by
  have values : StaysInside (writeAttributes c attributes) :=
    (staysInside_call rfl).bind fun _ => staysInside_forM staysInside_writeAttribute attributes
  have naming : StaysInside (call c (.elementName (.named name))) := staysInside_call rfl
  rw [writeParts_eq]
  refine StaysInside.bind ?_ fun _ => naming.bind fun _ => ?_
  · split
    · exact staysInside_pure ()
    · exact staysInside_writeDeclarations ds
  · split
    · exact staysInside_pure ()
    · exact values

/-! ## Starts of elements -/

theorem isBetween_of_call {call : Call}
    (outer : ∀ stage depth, call.isAllowed stage depth = true → stage.isBetween = true)
    (h : Encoder.call c call e = .ok () e') : e.isBetween = true := by
  obtain ⟨⟨reply, performed⟩, -⟩ := call_eq_ok h
  exact outer _ _ (Writer.perform_eq_ok performed).1

theorem isBetween_of_isAllowed_content {call : Call}
    (content : ∀ stage depth, call.isAllowed stage depth = true → stage = .content) :
    ∀ stage depth, call.isAllowed stage depth = true → stage.isBetween = true := by
  intro stage depth allowed
  rw [content stage depth allowed]
  rfl

theorem writeStart_eq_ok {name : QualifiedName} {ds : List NamespaceDeclaration}
    {attributes : List Attribute} (h : writeStart c name ds attributes e = .ok () e') :
    e.isBetween = true ∧ e'.writer.depth = e.writer.depth + 1 ∧ e'.scopes = e.scopes := by
  obtain ⟨_, u, marked, rest⟩ := bind_eq_ok h
  obtain ⟨_, v, parts, ended⟩ := bind_eq_ok rest
  obtain ⟨inside, depth, scopes⟩ := kept_of_call rfl marked
  obtain ⟨depth', scopes'⟩ := (staysInside_writeParts name ds attributes u inside).2 _ _ parts
  obtain ⟨⟨reply, performed⟩, kept⟩ := call_eq_ok ended
  refine ⟨isBetween_of_call ?_ marked, ?_, ?_⟩
  · exact isBetween_of_isAllowed_content fun stage depth allowed => of_decide_eq_true allowed
  · rw [Writer.depth_of_perform performed, ← depth, ← depth']
    rfl
  · rw [kept, ← scopes, ← scopes']

theorem writeStart_eq_error {name : QualifiedName} {ds : List NamespaceDeclaration}
    {attributes : List Attribute} {cause : CodecError}
    (h : writeStart c name ds attributes e = .error cause e') :
    e' = e ∨ e'.isBetween = false := by
  have refused {call : Call} {u : Encoder} (failed : Encoder.call c call u = .error cause e') :
      e' = u ∨ e'.isBetween = false := by
    rcases unchanged_of_call failed with same | poisoned
    · exact .inl same
    · exact .inr (by rw [isBetween, poisoned]; rfl)
  rcases bind_eq_error h with failed | ⟨_, u, marked, rest⟩
  · exact refused failed
  · have inside := (kept_of_call rfl marked).1
    have between : (after (writeParts c name ds attributes) u).isBetween = false :=
      (staysInside_writeParts name ds attributes u inside).1
    right
    rcases bind_eq_error rest with failed | ⟨_, v, parts, failed⟩
    · rwa [after_of_error failed] at between
    · rw [after_of_ok parts] at between
      exact isBetween_of_unchanged (unchanged_of_call failed) between

/-- A start that succeeds opens an element and its scope. -/
theorem startElement_eq_ok {name : QualifiedName} {ds : List NamespaceDeclaration}
    {attributes : List Attribute} (h : startElement c name ds attributes e = .ok () e') :
    e.isBetween = true ∧ e'.writer.depth = e.writer.depth + 1 ∧
      e'.scopes.depth = e.scopes.depth + 1 ∧
      ∀ opened, e.scopes = .ofElements opened → e'.scopes = .ofElements (ds :: opened) := by
  obtain ⟨_, u, nested, rest⟩ := bind_eq_ok h
  obtain ⟨resolved, v, found, written⟩ := bind_eq_ok rest
  cases (resolve_eq_ok found).2
  have opening := after_openScope ds e
  rw [after_of_ok nested] at opening
  obtain ⟨between, depth, scopes⟩ := writeStart_eq_ok written
  refine ⟨?_, ?_, ?_, ?_⟩
  · rwa [isBetween, ← opening.1]
  · rw [depth, opening.1]
  · rw [scopes, opening.2]
  · intro opened same
    rw [scopes]
    exact (openScope_eq_ok same nested).1

/-- A start that is refused between items opens the scope alone. -/
theorem startElement_eq_error {name : QualifiedName} {ds : List NamespaceDeclaration}
    {attributes : List Attribute} {cause : CodecError}
    (h : startElement c name ds attributes e = .error cause e') (between : e'.isBetween = true) :
    e'.writer = e.writer ∧ e'.scopes.depth = e.scopes.depth + 1 := by
  have opening := after_openScope ds e
  rcases bind_eq_error h with failed | ⟨_, u, nested, rest⟩
  · rwa [after_of_error failed] at opening
  · rw [after_of_ok nested] at opening
    rcases bind_eq_error rest with failed | ⟨resolved, v, found, failed⟩
    · rwa [resolve_eq_error failed]
    · cases (resolve_eq_ok found).2
      rcases writeStart_eq_error failed with same | inside
      · rwa [same]
      · rw [inside] at between
        cases between

/-! ## Other events -/

/-- A step that neither opens nor closes anything, and cannot come between items from elsewhere. -/
def Keeps (p : Encoding α) : Prop :=
  ∀ e, (after p e).isBetween = true → e.isBetween = true ∧
    (after p e).writer.depth = e.writer.depth ∧ (after p e).scopes = e.scopes

theorem keeps_pure (a : α) : Keeps (pure a : Encoding α) :=
  fun _ between => ⟨between, rfl, rfl⟩

theorem Keeps.bind {p : Encoding α} {f : α → Encoding β} (first : Keeps p)
    (second : ∀ a, Keeps (f a)) : Keeps (p >>= f) := by
  intro e between
  have kept := first e
  rw [after_bind] at between ⊢
  cases done : p e with
  | ok a u =>
      rw [done] at between
      rw [after_of_ok done] at kept
      obtain ⟨between', depth, scopes⟩ := second a u between
      obtain ⟨outside, depth', scopes'⟩ := kept between'
      exact ⟨outside, depth.trans depth', scopes.trans scopes'⟩
  | error cause u =>
      rw [done] at between
      rw [after_of_error done] at kept
      exact kept between

theorem keeps_of_unchanged {p : Encoding Unit}
    (ok : ∀ e e', p e = .ok () e' → e.isBetween = true ∧ e'.writer.depth = e.writer.depth ∧
      e'.scopes = e.scopes)
    (error : ∀ e e' cause, p e = .error cause e' → e' = e ∨ e'.writer.stage = .poisoned) :
    Keeps p := by
  intro e between
  cases done : p e with
  | ok _ e' =>
      rw [after_of_ok done]
      exact ok e e' done
  | error cause e' =>
      rw [after_of_error done] at between ⊢
      rcases error e e' cause done with rfl | poisoned
      · exact ⟨between, rfl, rfl⟩
      · rw [isBetween, poisoned] at between
        cases between

theorem kept_of_outer_call {call : Call}
    (outer : ∀ stage depth, call.isAllowed stage depth = true → stage.isBetween = true)
    (flat : ∀ depth, Writer.depthAfter depth call = depth)
    (h : Encoder.call c call e = .ok () e') :
    e.isBetween = true ∧ e'.writer.depth = e.writer.depth ∧ e'.scopes = e.scopes := by
  obtain ⟨⟨reply, performed⟩, kept⟩ := call_eq_ok h
  exact ⟨isBetween_of_call outer h, (Writer.depth_of_perform performed).trans (flat _),
    by rw [kept]⟩

theorem keeps_call {call : Call}
    (outer : ∀ stage depth, call.isAllowed stage depth = true → stage.isBetween = true)
    (flat : ∀ depth, Writer.depthAfter depth call = depth) : Keeps (Encoder.call c call) :=
  keeps_of_unchanged (fun _ _ => kept_of_outer_call outer flat) fun _ _ _ => unchanged_of_call

theorem keeps_characters (content : Content) : Keeps (callWith c .characters content) := by
  have outer (content : Content) (stage : Stage) (depth : Nat)
      (allowed : (Call.characters content).isAllowed stage depth = true) :
      stage.isBetween = true := by
    simp only [Call.isAllowed, Bool.and_eq_true, decide_eq_true_eq] at allowed
    rw [allowed.1]
    rfl
  refine keeps_of_unchanged ?_ fun _ _ _ => unchanged_of_callWith
  intro e e' done
  rcases callWith_eq_ok done with done | ⟨id, characters, cause, rfl, -, -, done⟩
  · exact kept_of_outer_call (outer _) (fun _ => rfl) done
  · exact kept_of_outer_call (outer _) (fun _ => rfl) done

theorem keeps_optional {p : Encoding Unit} (h : Keeps p) (ignored : Bool) :
    Keeps (if ignored then pure () else p) := by
  cases ignored with
  | true => exact keeps_pure ()
  | false => exact h

/-- What an event does that neither starts nor ends an element. -/
theorem keeps_writeEvent {event : Event} (start : ∀ name ds as, event ≠ .startElement name ds as)
    (other : event ≠ .endElement) : Keeps (writeEvent c event) := by
  cases event with
  | startDocument header =>
      refine (keeps_call ?_ fun _ => rfl).bind fun _ => keeps_call ?_ fun _ => rfl
      · intro stage depth allowed
        rw [of_decide_eq_true allowed]
        rfl
      · intro stage depth allowed
        rw [of_decide_eq_true allowed]
        rfl
  | startElement name ds as => exact absurd rfl (start name ds as)
  | characters content => exact keeps_optional (keeps_characters content) _
  | comment text =>
      refine keeps_optional (keeps_call ?_ fun _ => rfl) _
      exact isBetween_of_isAllowed_content fun stage depth allowed => of_decide_eq_true allowed
  | instruction target data =>
      refine keeps_optional (keeps_call ?_ fun _ => rfl) _
      exact isBetween_of_isAllowed_content fun stage depth allowed => of_decide_eq_true allowed
  | endElement => exact absurd rfl other
  | endDocument => exact fun _ between => ⟨between, rfl, rfl⟩

theorem endElement_eq_ok (h : writeEvent c .endElement e = .ok () e') :
    e.isBetween = true ∧ e'.writer.depth + 1 = e.writer.depth ∧
      e.scopes.pop = .ok e'.scopes := by
  obtain ⟨_, u, called, popped⟩ := bind_eq_ok h
  obtain ⟨⟨reply, performed⟩, kept⟩ := call_eq_ok called
  obtain ⟨closed, kept'⟩ := scoping_eq_ok popped
  have allowed := (Writer.perform_eq_ok performed).1
  simp only [Call.isAllowed, Bool.and_eq_true, decide_eq_true_eq] at allowed
  refine ⟨by rw [isBetween, allowed.1]; rfl, ?_, ?_⟩
  · have depth := Writer.depth_of_perform performed
    rw [Writer.depthAfter] at depth
    rw [kept']
    dsimp only
    omega
  · rwa [kept] at closed

/-- Within the scopes of open elements, an end that is refused between items does nothing. -/
theorem endElement_eq_error {cause : CodecError}
    (h : writeEvent c .endElement e = .error cause e') (between : e'.isBetween = true)
    (covered : e.isBetween = true → e.writer.depth ≤ e.scopes.depth) : e' = e := by
  rcases bind_eq_error h with failed | ⟨_, u, called, popped⟩
  · rcases unchanged_of_call failed with same | poisoned
    · exact same
    · rw [isBetween, poisoned] at between
      cases between
  · obtain ⟨⟨reply, performed⟩, kept⟩ := call_eq_ok called
    have allowed := (Writer.perform_eq_ok performed).1
    simp only [Call.isAllowed, Bool.and_eq_true, decide_eq_true_eq] at allowed
    have inScope : u.scopes.depth ≠ 0 := by
      have := covered (by rw [isBetween, allowed.1]; rfl)
      rw [kept]
      dsimp only
      omega
    unfold scoping NamespaceScopes.pop at popped
    dsimp only at popped
    rw [if_neg inScope] at popped
    cases popped

end Encoder

/-! ## Sessions of an encoder -/

/-- An encoder that is given events in any order, those that it refuses included. -/
structure EncoderSession where
  encoder : Encoder
  /-- What the open elements declare, innermost first. -/
  opened : List (List NamespaceDeclaration) := []
  /-- How many starts of elements were refused. -/
  refused : Nat := 0

def Codec.encoderSession (c : Codec) (sink : Sink) : EncoderSession where
  encoder := c.encoder sink

namespace EncoderSession

/-- Whether an event that is refused leaves the scope of an element behind. -/
def countsIfRefused (s : EncoderSession) : Event → Bool
  | .startElement _ _ _ => !s.encoder.ended
  | _ => false

def give (c : Codec) (s : EncoderSession) (event : Event) : EncoderSession :=
  match Encoder.write c event s.encoder with
  | .ok _ encoder => { s with encoder, opened := event.openedAfter s.opened }
  | .error _ encoder =>
    { s with encoder, refused := s.refused + if s.countsIfRefused event then 1 else 0 }

def run (c : Codec) (s : EncoderSession) (events : List Event) : EncoderSession :=
  events.foldl (give c) s

/-- What holds between items. -/
structure Balanced (s : EncoderSession) : Prop where
  depth : s.encoder.writer.depth = s.opened.length
  scopes : s.encoder.scopes.depth = s.opened.length + s.refused
  following : s.refused = 0 → s.encoder.scopes = .ofElements s.opened

variable {c : Codec} {s : EncoderSession}

theorem Balanced.of_same (h : s.Balanced) {encoder : Encoder}
    (depth : encoder.writer.depth = s.encoder.writer.depth)
    (scopes : encoder.scopes = s.encoder.scopes) : { s with encoder }.Balanced :=
  ⟨depth.trans h.depth, (congrArg _ scopes).trans h.scopes,
    fun none => scopes.trans (h.following none)⟩

theorem give_of_ended {event : Event} (ended : s.encoder.ended = true) : s.give c event = s := by
  have counts : s.countsIfRefused event = false := by
    cases event with
    | startElement => rw [countsIfRefused, ended]; rfl
    | _ => rfl
  rw [give, Encoder.write, if_pos ended]
  dsimp only
  rw [counts]
  rfl

theorem give_of_ok {event : Event} {encoder : Encoder} (active : s.encoder.ended = false)
    (h : Encoder.writeEvent c event s.encoder = .ok () encoder) :
    s.give c event = { s with encoder, opened := event.openedAfter s.opened } := by
  rw [give, Encoder.write, active, if_neg Bool.false_ne_true, h]

theorem give_of_error {event : Event} {encoder : Encoder} {cause : CodecError}
    (active : s.encoder.ended = false)
    (h : Encoder.writeEvent c event s.encoder = .error cause encoder) :
    s.give c event =
      { s with encoder, refused := s.refused + if s.countsIfRefused event then 1 else 0 } := by
  rw [give, Encoder.write, active, if_neg Bool.false_ne_true, h]

theorem balanced_start (h : s.encoder.isBetween = true → s.Balanced)
    (active : s.encoder.ended = false) (name : QualifiedName) (ds : List NamespaceDeclaration)
    (as : List Attribute)
    (between : (s.give c (.startElement name ds as)).encoder.isBetween = true) :
    (s.give c (.startElement name ds as)).Balanced := by
  cases done : Encoder.writeEvent c (.startElement name ds as) s.encoder with
  | ok _ encoder =>
      rw [give_of_ok active done]
      obtain ⟨outside, depth, scopes, same⟩ := Encoder.startElement_eq_ok done
      have balanced := h outside
      refine ⟨?_, ?_, fun none => same _ (balanced.following none)⟩
      · exact depth.trans (congrArg (· + 1) balanced.depth)
      · change encoder.scopes.depth = s.opened.length + 1 + s.refused
        rw [scopes, balanced.scopes, Nat.add_right_comm]
  | error cause encoder =>
      rw [give_of_error active done] at between ⊢
      obtain ⟨writer, scopes⟩ := Encoder.startElement_eq_error done between
      have balanced := h (by rwa [Encoder.isBetween, ← writer])
      rw [countsIfRefused, active]
      refine ⟨?_, ?_, nofun⟩
      · exact (congrArg _ writer).trans balanced.depth
      · exact scopes.trans (congrArg (· + 1) balanced.scopes)

theorem balanced_end (h : s.encoder.isBetween = true → s.Balanced)
    (active : s.encoder.ended = false)
    (between : (s.give c .endElement).encoder.isBetween = true) :
    (s.give c .endElement).Balanced := by
  cases done : Encoder.writeEvent c .endElement s.encoder with
  | ok _ encoder =>
      rw [give_of_ok active done]
      obtain ⟨outside, depth, popped⟩ := Encoder.endElement_eq_ok done
      have balanced := h outside
      have closed := NamespaceScopes.depth_of_pop popped
      rw [balanced.depth] at depth
      rw [balanced.scopes] at closed
      cases opened : s.opened with
      | nil =>
          rw [opened] at depth
          cases depth
      | cons ds outer =>
          rw [opened, List.length_cons] at depth closed
          refine ⟨Nat.add_right_cancel depth, ?_, ?_⟩
          · change encoder.scopes.depth = outer.length + s.refused
            omega
          · intro none
            have scopes := balanced.following none
            rw [opened] at scopes
            rw [scopes, NamespaceScopes.pop_ofElements] at popped
            injection popped with same
            exact same.symm
  | error cause encoder =>
      rw [give_of_error active done] at between ⊢
      have unchanged := Encoder.endElement_eq_error done between fun outside => by
        rw [(h outside).depth, (h outside).scopes]
        exact Nat.le_add_right _ _
      rw [unchanged] at between ⊢
      exact h between

theorem balanced_other (h : s.encoder.isBetween = true → s.Balanced)
    (active : s.encoder.ended = false) {event : Event}
    (start : ∀ name ds as, event ≠ .startElement name ds as) (inner : event ≠ .endElement)
    (between : (s.give c event).encoder.isBetween = true) : (s.give c event).Balanced := by
  have kept : Encoder.Keeps (Encoder.writeEvent c event) := Encoder.keeps_writeEvent start inner
  have same : event.openedAfter s.opened = s.opened ∧ s.countsIfRefused event = false := by
    cases event with
    | startElement name ds as => exact absurd rfl (start name ds as)
    | endElement => exact absurd rfl inner
    | _ => exact ⟨rfl, rfl⟩
  cases done : Encoder.writeEvent c event s.encoder with
  | ok _ encoder =>
      rw [give_of_ok active done, same.1] at between ⊢
      rw [← Encoder.after_of_ok done] at between ⊢
      obtain ⟨outside, depth, scopes⟩ := kept s.encoder between
      exact (h outside).of_same depth scopes
  | error cause encoder =>
      rw [give_of_error active done, same.2] at between ⊢
      rw [← Encoder.after_of_error done] at between ⊢
      obtain ⟨outside, depth, scopes⟩ := kept s.encoder between
      exact (h outside).of_same depth scopes

theorem balanced_give (h : s.encoder.isBetween = true → s.Balanced) (event : Event)
    (between : (s.give c event).encoder.isBetween = true) : (s.give c event).Balanced := by
  cases active : s.encoder.ended with
  | true =>
      rw [give_of_ended active] at between ⊢
      exact h between
  | false =>
      cases event with
      | startElement name ds as => exact balanced_start h active name ds as between
      | endElement => exact balanced_end h active between
      | _ => exact balanced_other h active nofun nofun between

theorem balanced_run (h : s.encoder.isBetween = true → s.Balanced) (events : List Event)
    (between : (s.run c events).encoder.isBetween = true) : (s.run c events).Balanced := by
  induction events generalizing s with
  | nil => exact h between
  | cons event events ih => exact ih (balanced_give h event) between

/-- Between items an encoder has one scope for each open element and each refused start, and they
are the scopes of the open elements exactly if no start was refused. -/
theorem scopes_of_run (c : Codec) (sink : Sink) (events : List Event)
    (between : ((c.encoderSession sink).run c events).encoder.isBetween = true) :
    let s := (c.encoderSession sink).run c events
    s.encoder.writer.depth = s.opened.length ∧
      s.encoder.scopes.depth = s.encoder.writer.depth + s.refused ∧
      (s.encoder.scopes = .ofElements s.opened ↔ s.refused = 0) := by
  have start : (c.encoderSession sink).encoder.isBetween = true →
      (c.encoderSession sink).Balanced := fun _ => ⟨rfl, rfl, fun _ => rfl⟩
  have balanced := balanced_run start events between
  refine ⟨balanced.depth, ?_, ?_, balanced.following⟩
  · rw [balanced.depth]
    exact balanced.scopes
  · intro same
    have depth := balanced.scopes
    rw [same] at depth
    exact (Nat.left_eq_add.1 depth)

/-- The start of an element is refused for its prefix, and what it declares stays in force. -/
theorem scopes_of_run_unboundPrefix :
    let s := (({} : Codec).encoderSession {}).run {}
      [.startDocument {}, .startElement { nsPrefix := "p", localName := "a" }
        [{ nsPrefix := "q", namespaceName := "urn:q" }] []]
    s.encoder.isBetween = true ∧ s.opened = [] ∧ s.refused = 1 ∧
      s.encoder.writer.depth = 0 ∧ s.encoder.scopes.depth = 1 ∧
      s.encoder.scopes ≠ .ofElements [] ∧
      s.encoder.scopes.resolveName .element { nsPrefix := "q", localName := "b" } =
        .ok { nsPrefix := "q", namespaceName := "urn:q", localName := "b" } := by
  have between : ((({} : Codec).encoderSession {}).run {}
      [.startDocument {}, .startElement { nsPrefix := "p", localName := "a" }
        [{ nsPrefix := "q", namespaceName := "urn:q" }] []]).encoder.isBetween = true := by
    rfl
  obtain ⟨depth, scopes, same⟩ := scopes_of_run {} {} _ between
  refine ⟨between, rfl, rfl, depth, scopes, fun h => ?_, rfl⟩
  cases same.1 h

end EncoderSession

end BinaryXml
