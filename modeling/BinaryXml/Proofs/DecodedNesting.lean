import BinaryXml.Proofs.DecoderMoves
import BinaryXml.Proofs.Nesting

/-!
# The nesting of decoded events

A decoder counts the open elements and may end two of them with one octet. Whatever the octets of a
document are, the events that come out of it are nested: after each step, the events of the steps
behind it are still to close what is open.
-/

namespace BinaryXml

/-! ## Nested events -/

/-- Characters stand inside of elements only. -/
def eventNesting : Nesting Event where
  start first := ∃ name declarations attributes, first = [.startElement name declarations attributes]
  stop := .endElement
  leaf
    | _, .comment _ => True
    | _, .instruction _ _ => True
    | true, .characters _ => True
    | _, _ => False

namespace Decoder

variable {depth : Nat} {events : List Event}

/-- The events end all open elements, and after them the document. -/
def EndsDocument (depth : Nat) (events : List Event) : Prop :=
  ∃ body, eventNesting.Closing depth body ∧ events = body ++ [.endDocument]

/-- The events start an element, end it, and go on to the end of the document. -/
def StartsElement (depth : Nat) (events : List Event) : Prop :=
  ∃ name declarations attributes rest,
    events = .startElement name declarations attributes :: rest ∧ EndsDocument (depth + 1) rest

/-- The events that may still come out of a decoder. -/
def State.Expects (s : State) (events : List Event) : Prop :=
  match s.phase with
  | .children => EndsDocument s.depth events
  | .declarations _ _ => StartsElement s.depth events
  | .attributes _ => StartsElement s.depth events
  | .ended => events = []

theorem endsDocument_endDocument : EndsDocument 0 [.endDocument] :=
  ⟨[], Nesting.closing_nil, rfl⟩

theorem EndsDocument.cons_leaf {event : Event} (h : EndsDocument depth events)
    (isLeaf : eventNesting.leaf (decide (0 < depth)) event) :
    EndsDocument depth (event :: events) := by
  obtain ⟨body, closing, rfl⟩ := h
  exact ⟨event :: body, closing.cons_leaf isLeaf, rfl⟩

theorem EndsDocument.cons_endElement (h : EndsDocument depth events) :
    EndsDocument (depth + 1) (.endElement :: events) := by
  obtain ⟨body, closing, rfl⟩ := h
  exact ⟨.endElement :: body, closing.close, rfl⟩

theorem StartsElement.endsDocument (h : StartsElement depth events) :
    EndsDocument depth events := by
  obtain ⟨name, declarations, attributes, rest, rfl, body, closing, rfl⟩ := h
  exact ⟨_, closing.append_start ⟨name, declarations, attributes, rfl⟩, rfl⟩

/-! ## Steps -/

/-- The events completed come first among those that are expected. -/
def Completes (expected : List Event → Prop) (r : List Event × State) : Prop :=
  ∀ events, r.2.Expects events → expected (r.1 ++ events)

theorem completes_leaf {v : Vocabulary} {event : Event}
    (isLeaf : eventNesting.leaf (decide (0 < depth)) event) :
    Completes (EndsDocument depth) ([event], { vocabulary := v, depth }) :=
  fun _ expects => EndsDocument.cons_leaf expects isLeaf

/-- Wherever the name of an element may stand, a start of an element is expected. -/
theorem StartsElement.expects {v : Vocabulary} {phase : Phase} {ds : List NamespaceDeclaration}
    (h : StartsElement depth events) (begins : phase.Begins ds) :
    State.Expects { vocabulary := v, depth, phase } events := by
  cases begins with
  | bare => exact h.endsDocument
  | declared => exact h

theorem completes_of_moves {c : Codec} {s : State} {r : List Event × State} (h : Moves c s r) :
    Completes s.Expects r := by
  cases h with
  | stop => exact fun events expects => EndsDocument.cons_endElement expects
  | finish =>
      intro events expects
      cases (show events = [] from expects)
      exact endsDocument_endDocument
  | stopTwice =>
      intro events expects
      exact (EndsDocument.cons_endElement expects).cons_endElement
  | stopAndFinish =>
      intro events expects
      cases (show events = [] from expects)
      exact endsDocument_endDocument.cons_endElement
  | @instruction _ _ _ depth | @comment _ _ depth =>
      apply completes_leaf
      cases decide (0 < depth) <;> exact trivial
  | characters inside =>
      apply completes_leaf
      rw [decide_eq_true inside]
      exact trivial
  | declarations =>
      intro events expects
      exact StartsElement.endsDocument expects
  | declaration | attributed | ended => exact fun events expects => expects
  | name begins =>
      intro events expects
      exact StartsElement.expects expects begins
  | element begins =>
      intro events expects
      exact StartsElement.expects ⟨_, _, _, events, rfl, expects⟩ begins
  | tag => exact fun events expects => ⟨_, _, _, events, rfl, expects⟩
  | emptyTag =>
      intro events expects
      exact ⟨_, _, _, .endElement :: events, rfl, EndsDocument.cons_endElement expects⟩

/-! ## Runs -/

/-- What a run adds to the events is what was expected of the state that it begins with. -/
theorem expects_of_run {c : Codec} {s : State} {before after : Array Event} {i : Input}
    {rest : Octets} (h : run c s before i = .ok (after, rest)) :
    ∃ events, after.toList = before.toList ++ events ∧ s.Expects events := by
  -- Each step puts its events in front of what the rest of the run is expected to add.
  fun_induction run c s before i with
  | case1 => cases h
  | case2 s before i completed s' i' ok ended =>
      cases h
      refine ⟨completed, by simp, ?_⟩
      have all : s.Expects (completed ++ []) :=
        completes_of_moves (moves_of_step i _ i' ok) [] (by rw [State.Expects, ended])
      rwa [List.append_nil] at all
  | case3 s before i completed s' i' ok going ih =>
      obtain ⟨events, same, expects⟩ := ih h
      refine ⟨completed ++ events, by simp [same], ?_⟩
      exact completes_of_moves (moves_of_step i _ i' ok) events expects

end Decoder

end BinaryXml
