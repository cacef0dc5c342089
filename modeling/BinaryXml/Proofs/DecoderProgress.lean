import BinaryXml.Proofs.Readers

/-!
# Progress of a decoder

A document that is still being written is a front of octets whose continuation is unknown. A
decoder that arrives behind this front goes on as it would from the state it is in, whatever
follows; one that fails there fails on every document that begins so.
-/

namespace BinaryXml

namespace Decoder

/-- Steps as long as there are octets. -/
def consume (c : Codec) (s : State) (events : List Event) (i : Input) :
    EStateM.Result CodecError Input (List Event × State) :=
  match i.rest with
  | [] => .ok (events, s) i
  | _ :: _ =>
    match _ok : step c s i with
    | .error cause i => .error cause i
    | .ok (completed, s) i => consume c s (events ++ completed) i
termination_by i.rest.length
decreasing_by exact rest_length_lt_of_step ‹_›

def outcome {α : Type} : EStateM.Result CodecError Input α → Except CodecError α
  | .ok a _ => .ok a
  | .error cause _ => .error cause

/-- The events and the state of a decoder that has consumed the front of a document. -/
def consumeFront (c : Codec) (octets : Octets) : Except CodecError (List Event × State) :=
  match readHeader c ⟨octets, 0⟩ with
  | .error cause _ => .error cause
  | .ok (header, vocabulary) input =>
    outcome (consume c { vocabulary } [.startDocument header] input)

/-- A document has to end with the octets. -/
def conclude : Except CodecError (Array Event × Octets) → Except CodecError (List Event)
  | .error cause => .error cause
  | .ok (events, rest) =>
    if rest.isEmpty then .ok events.toList else .error (.format (.trailingOctets rest.length))

/-! ## From state to state -/

/-- Over `octets` a decoder in the state `s` completes events and gets to the state `s'`. -/
structure Passes (c : Codec) (s : State) (octets : Octets) (completed : List Event)
    (s' : State) : Prop where
  consume_eq : ∀ events rest offset,
    consume c s events ⟨octets ++ rest, offset⟩ =
      consume c s' (events ++ completed) ⟨rest, offset + octets.length⟩
  run_eq : ∀ (events : List Event) rest offset,
    run c s events.toArray ⟨octets ++ rest, offset⟩ =
      run c s' (events ++ completed).toArray ⟨rest, offset + octets.length⟩

/-- A decoder in the state `s` fails within `octets`. -/
structure Stops (c : Codec) (s : State) (octets : Octets) (cause : CodecError) : Prop where
  consume_eq : ∀ events rest offset, ∃ i, consume c s events ⟨octets ++ rest, offset⟩ =
    .error cause i
  run_eq : ∀ (events : List Event) rest offset,
    run c s events.toArray ⟨octets ++ rest, offset⟩ = .error cause

section Steps

variable {c : Codec} {s s' s'' : State} {front back octets : Octets}
  {completed completed' : List Event} {cause : CodecError}

theorem Passes.refl (c : Codec) (s : State) : Passes c s [] [] s where
  consume_eq events rest offset := by rw [List.append_nil]; rfl
  run_eq events rest offset := by rw [List.append_nil]; rfl

theorem Passes.trans (h : Passes c s front completed s') (h' : Passes c s' back completed' s'') :
    Passes c s (front ++ back) (completed ++ completed') s'' where
  consume_eq events rest offset := by
    rw [List.append_assoc, h.consume_eq, h'.consume_eq, List.length_append, Nat.add_assoc,
      List.append_assoc]
  run_eq events rest offset := by
    rw [List.append_assoc, h.run_eq, h'.run_eq, List.length_append, Nat.add_assoc,
      List.append_assoc]

theorem Passes.stops (h : Passes c s front completed s') (h' : Stops c s' back cause) :
    Stops c s (front ++ back) cause where
  consume_eq events rest offset := by
    rw [List.append_assoc, h.consume_eq]
    exact h'.consume_eq _ _ _
  run_eq events rest offset := by
    rw [List.append_assoc, h.run_eq]
    exact h'.run_eq _ _ _

/-- A step needs an octet to begin with. -/
theorem ne_nil_of_yields {r : List Event × State} (h : Yields (step c s) octets r) :
    octets ≠ [] := by
  rintro rfl
  have := h.ok [] 0
  cases this

/-- A decoder that finds no octets tells where they end. -/
theorem ne_nil_of_refuses (h : Refuses (step c s) octets cause) : octets ≠ [] := by
  rintro rfl
  obtain ⟨_, first⟩ := h [] 0
  obtain ⟨_, second⟩ := h [] 1
  have first : CodecError.format (.unexpectedEnd 0) = cause := by cases first; rfl
  have second : CodecError.format (.unexpectedEnd 1) = cause := by cases second; rfl
  cases first.trans second.symm

theorem consume_of_cons {events : List Event} {i : Input} (h : i.rest ≠ []) :
    consume c s events i =
      match step c s i with
      | .error cause i => .error cause i
      | .ok (completed, s) i => consume c s (events ++ completed) i := by
  rw [consume]
  split
  · next none => exact absurd none h
  · split <;> next ok => rw [ok]

theorem run_of_step {events : Array Event} {i i' : Input}
    (h : step c s i = .ok (completed, s') i') :
    run c s events i =
      match s'.phase with
      | .ended => .ok (events.appendList completed, i'.rest)
      | _ => run c s' (events.appendList completed) i' := by
  rw [run]
  split
  · next failed => rw [h] at failed; cases failed
  · next ok =>
      rw [h] at ok
      cases ok
      rfl

theorem appendList_toArray (events completed : List Event) :
    events.toArray.appendList completed = (events ++ completed).toArray := by
  simp

theorem passes_of_yields (h : Yields (step c s) octets (completed, s'))
    (going : s'.phase ≠ .ended) : Passes c s octets completed s' where
  consume_eq events rest offset := by
    rw [consume_of_cons fun empty => ne_nil_of_yields h (List.append_eq_nil_iff.1 empty).1,
      h.ok rest offset]
  run_eq events rest offset := by
    rw [run_of_step (h.ok rest offset), appendList_toArray]
    split
    · next ended => exact absurd ended going
    · rfl

theorem stops_of_refuses (h : Refuses (step c s) octets cause) : Stops c s octets cause where
  consume_eq events rest offset := by
    obtain ⟨i, failed⟩ := h rest offset
    rw [consume_of_cons fun empty => ne_nil_of_refuses h (List.append_eq_nil_iff.1 empty).1,
      failed]
    exact ⟨i, rfl⟩
  run_eq events rest offset := by
    obtain ⟨i, failed⟩ := h rest offset
    rw [run]
    split
    · next other => rw [failed] at other; cases other; rfl
    · next ok => rw [failed] at ok; cases ok

end Steps

/-! ## From the beginning of the document -/

/-- Behind `front` the decoder has completed events and is in the state `s`. -/
structure Arrives (c : Codec) (front : Octets) (events : List Event) (s : State) : Prop where
  consume_eq : ∀ rest, consumeFront c (front ++ rest) =
    outcome (consume c s events ⟨rest, front.length⟩)
  decode_eq : ∀ rest, c.decode (front ++ rest) =
    conclude (run c s events.toArray ⟨rest, front.length⟩)

/-- The decoder fails within `front`. -/
structure Fails (c : Codec) (front : Octets) (cause : CodecError) : Prop where
  consume_eq : ∀ rest, consumeFront c (front ++ rest) = .error cause
  decode_eq : ∀ rest, c.decode (front ++ rest) = .error cause

section Fronts

variable {c : Codec} {s s' : State} {front octets : Octets} {events completed : List Event}
  {cause : CodecError}

theorem Arrives.consumeFront_eq (h : Arrives c front events s) :
    consumeFront c front = .ok (events, s) := by
  have := h.consume_eq []
  rw [List.append_nil] at this
  rw [this, consume]
  rfl

theorem Fails.consumeFront_eq (h : Fails c front cause) : consumeFront c front = .error cause := by
  have := h.consume_eq []
  rwa [List.append_nil] at this

theorem Arrives.passes (h : Arrives c front events s) (h' : Passes c s octets completed s') :
    Arrives c (front ++ octets) (events ++ completed) s' where
  consume_eq rest := by
    rw [List.append_assoc, h.consume_eq, h'.consume_eq, List.length_append]
  decode_eq rest := by
    rw [List.append_assoc, h.decode_eq, h'.run_eq, List.length_append]

theorem Arrives.stops (h : Arrives c front events s) (h' : Stops c s octets cause) :
    Fails c (front ++ octets) cause where
  consume_eq rest := by
    obtain ⟨i, failed⟩ := h'.consume_eq events rest front.length
    rw [List.append_assoc, h.consume_eq, failed]
    rfl
  decode_eq rest := by
    rw [List.append_assoc, h.decode_eq, h'.run_eq]
    rfl

theorem Fails.append (h : Fails c front cause) (more : Octets) :
    Fails c (front ++ more) cause where
  consume_eq rest := by rw [List.append_assoc, h.consume_eq]
  decode_eq rest := by rw [List.append_assoc, h.decode_eq]

theorem arrives_of_header {header : DocumentHeader} {vocabulary : Vocabulary}
    (h : Yields (readHeader c) front (header, vocabulary)) :
    Arrives c front [.startDocument header] { vocabulary } where
  consume_eq rest := by
    rw [consumeFront, h.ok rest 0, Nat.zero_add]
  decode_eq rest := by
    rw [Codec.decode, h.ok rest 0, Nat.zero_add]
    rfl

/-- A document is read if its last octets end it. -/
theorem Arrives.decode_of_ended (h : Arrives c front events s)
    (last : Yields (step c s) octets (completed, s')) (ended : s'.phase = .ended) :
    c.decode (front ++ octets) = .ok (events ++ completed) := by
  have := last.ok [] front.length
  rw [List.append_nil] at this
  rw [h.decode_eq, run_of_step this, ended, appendList_toArray]
  rfl

end Fronts

/-! ## Terminators -/

/-- Among children a terminator ends the innermost element or the document. -/
theorem yields_terminator (c : Codec) (v : Vocabulary) (depth : Nat) :
    Yields (step c { vocabulary := v, depth }) [Mark.terminator]
      ([(close depth).1],
        { vocabulary := v, depth := (close depth).2.1, phase := (close depth).2.2 }) := by
  refine (Reading.yields_ofParser (Parser.yields_octet _)).bind.done ?_
  exact yields_pure _

/-- Among attributes a terminator ends the start of their element. -/
theorem yields_endAttributes (c : Codec) (v : Vocabulary) (depth : Nat) (tag : Tag) :
    Yields (step c { vocabulary := v, depth, phase := .attributes tag }) [Mark.terminator]
      ([tag.event], { vocabulary := v, depth := depth + 1 }) := by
  refine (Reading.yields_ofParser (Parser.yields_octet _)).bind.done ?_
  exact yields_pure _

/-- The second half of a double terminator ends what the first half leaves open. -/
theorem yields_doubleTerminator {c : Codec} {s : State} {completed : List Event} {v : Vocabulary}
    {depth : Nat}
    (h : Yields (step c s) [Mark.terminator] (completed, { vocabulary := v, depth })) :
    Yields (step c s) [Mark.doubleTerminator]
      (completed ++ [(close depth).1],
        { vocabulary := v, depth := (close depth).2.1, phase := (close depth).2.2 }) := by
  have first : readAfter c s Mark.terminator ⟨[], 1⟩ =
      .ok (completed, { vocabulary := v, depth }) ⟨[], 1⟩ := h.ok [] 0
  refine (Reading.yields_ofParser (Parser.yields_octet _)).bind.done ?_
  obtain ⟨vocabulary, depth', phase⟩ := s
  cases phase with
  | children =>
      cases depth' with
      | zero => cases first
      | succ depth' =>
          cases first
          exact yields_pure _
  | declarations attributed declared => cases first
  | attributes tag =>
      cases first
      exact yields_pure _
  | ended => cases first

end Decoder

end BinaryXml
