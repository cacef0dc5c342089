import BinaryXml.Proofs.CallGrammar
import BinaryXml.Proofs.SessionRoundTrip
import BinaryXml.Proofs.WriterErrors

/-!
# Calls out of turn

A writer refuses a call as out of turn if and only if the calls that it accepted before, continued
with this one, begin no sentence of the grammar. Calls that fail for other causes leave no trace in
this: what counts is the calls that succeeded. After a call out of turn every request is refused.
-/

namespace BinaryXml

namespace Writer

variable {c : Codec} {call : Call} {w w' : Writer} {cause : CodecError}

theorem perform_of_not_isAllowed (notAllowed : call.isAllowed w.stage w.depth = false) :
    ∃ p w', perform c call w = .error (.protocol p) w' := by
  by_cases poisoned : w.stage = .poisoned
  · exact ⟨.poisoned, w, perform_of_poisoned poisoned⟩
  · unfold perform
    rw [if_neg poisoned, notAllowed]
    exact ⟨_, _, rfl⟩

theorem endDocument_of_content (stage : w.stage = .content) (depth : w.depth = 0)
    (h : endDocument w = .error cause w') : ∃ reason, cause = .sink reason := by
  unfold endDocument at h
  rw [if_neg (by rw [stage]; nofun), if_neg (by simp [stage]), if_neg (by omega)] at h
  unfold finish at h
  dsimp only at h
  split at h
  · cases h
    exact ⟨_, rfl⟩
  · split at h
    · cases h
      exact ⟨_, rfl⟩
    · cases h

theorem endDocument_of_elsewhere (elsewhere : ¬(w.stage = .content ∧ w.depth = 0)) :
    ∃ p w', endDocument w = .error (.protocol p) w' := by
  unfold endDocument
  by_cases poisoned : w.stage = .poisoned
  · exact ⟨.poisoned, w, by rw [if_pos poisoned]⟩
  · rw [if_neg poisoned]
    by_cases stage : w.stage = .content
    · have inside : 0 < w.depth := Nat.pos_of_ne_zero fun top => elsewhere ⟨stage, top⟩
      rw [if_neg (not_not_intro stage), if_pos inside]
      exact ⟨_, _, rfl⟩
    · rw [if_pos stage]
      exact ⟨_, _, rfl⟩

theorem poisoned_of_endDocument (h : endDocument w = .error cause w') : w'.stage = .poisoned := by
  unfold endDocument at h
  split at h
  · next poisoned =>
      cases h
      exact poisoned
  · split at h
    · cases h
      rfl
    · split at h
      · cases h
        rfl
      · unfold finish at h
        dsimp only at h
        split at h
        · cases h
          rfl
        · split at h
          · cases h
            rfl
          · cases h

end Writer

/-! ## Requests -/

namespace Request

/-- Whether a request is in turn, seen from the stage of a writer and its open elements. -/
def InTurn (stage : Stage) (depth : Nat) : Request → Prop
  | call asked => asked.isAllowed stage depth = true
  | endDocument => stage = .content ∧ depth = 0

variable {c : Codec} {w w' : Writer} {cause : CodecError}

theorem make_call_eq_error {asked : Call} :
    (Request.call asked).make c w = .error cause w' ↔
      Writer.perform c asked w = .error cause w' := by
  constructor
  · intro h
    rcases bind_eq_error h with failed | ⟨_, _, -, replied⟩
    · exact failed
    · cases replied
  · exact bind_of_error

/-- The writer decides from its stage and its depth alone. -/
theorem protocol_iff {request : Request} :
    (∃ p w', request.make c w = .error (.protocol p) w') ↔ ¬request.InTurn w.stage w.depth := by
  cases request with
  | call asked =>
      simp only [make_call_eq_error, InTurn, Bool.not_eq_true]
      constructor
      · rintro ⟨p, w', failed⟩
        exact (Writer.perform_eq_protocol failed).1
      · exact Writer.perform_of_not_isAllowed
  | endDocument =>
      constructor
      · rintro ⟨p, w', failed⟩ ⟨stage, depth⟩
        obtain ⟨reason, other⟩ := Writer.endDocument_of_content stage depth failed
        cases other
      · exact Writer.endDocument_of_elsewhere

theorem make_of_poisoned (poisoned : w.stage = .poisoned) (request : Request) :
    request.make c w = .error (.protocol .poisoned) w := by
  cases request with
  | call asked => exact make_call_eq_error.2 (Writer.perform_of_poisoned poisoned)
  | endDocument => exact if_pos poisoned

theorem poisoned_of_protocol {request : Request} {p : ProtocolError}
    (h : request.make c w = .error (.protocol p) w') : w'.stage = .poisoned := by
  cases request with
  | call asked => exact (Writer.perform_eq_protocol (make_call_eq_error.1 h)).2
  | endDocument => exact Writer.poisoned_of_endDocument h

end Request

namespace CallGrammar

/-- Where a sentence goes on behind some calls. -/
theorem split_of_append {calls before : List Call} {next : Request} {rest : List Request}
    (h : before.map .call ++ next :: rest = calls.map .call ++ [.endDocument]) :
    (∃ asked back, next = .call asked ∧ calls = before ++ asked :: back) ∨
      (next = .endDocument ∧ calls = before) := by
  induction before generalizing calls with
  | nil =>
      cases calls with
      | nil =>
          cases h
          exact .inr ⟨rfl, rfl⟩
      | cons asked back =>
          cases h
          exact .inl ⟨asked, back, rfl, rfl⟩
  | cons first before ih =>
      cases calls with
      | nil => cases before <;> cases h
      | cons other calls =>
          simp only [List.map_cons, List.cons_append, List.cons.injEq, Request.call.injEq] at h
          obtain ⟨rfl, h⟩ := h
          rcases ih h with ⟨asked, back, isCall, rfl⟩ | ⟨isEnd, rfl⟩
          · exact .inl ⟨asked, back, isCall, rfl⟩
          · exact .inr ⟨isEnd, rfl⟩

/-- Calls that lead to a stage are continued to a sentence by what is in turn there. -/
theorem inTurn_iff {before : List Call} {stage : Stage} {depth : Nat} {next : Request}
    (leads : ∀ rest, Completes .idle 0 (before ++ rest) ↔ Completes stage depth rest) :
    next.InTurn stage depth ↔
      ∃ sentence, Sentence anyContent sentence ∧ before.map .call ++ [next] <+: sentence := by
  constructor
  · intro inTurn
    cases next with
    | call asked =>
        -- No call leads into a dead end: behind it there is a way to the end of the document.
        have active : asked.stageAfter ≠ .poisoned := by cases asked <;> nofun
        obtain ⟨rest, completes⟩ := exists_completes active (Writer.depthAfter depth asked)
        have whole : Completes .idle 0 (before ++ asked :: rest) :=
          (leads (asked :: rest)).2 ⟨inTurn, completes⟩
        refine ⟨_, sentence_iff.2 ⟨_, whole, rfl⟩, rest.map .call ++ [.endDocument], ?_⟩
        simp
    | endDocument =>
        have whole : Completes .idle 0 (before ++ []) := (leads []).2 inTurn
        rw [List.append_nil] at whole
        exact ⟨_, sentence_iff.2 ⟨before, whole, rfl⟩, List.prefix_refl _⟩
  · rintro ⟨sentence, isSentence, rest, same⟩
    obtain ⟨calls, completes, rfl⟩ := sentence_iff.1 isSentence
    rw [List.append_assoc] at same
    rcases split_of_append same with ⟨asked, back, rfl, rfl⟩ | ⟨rfl, rfl⟩
    · exact ((leads (asked :: back)).1 completes).1
    · rw [← List.append_nil calls] at completes
      exact (leads []).1 completes

end CallGrammar

/-! ## Sessions -/

namespace Session

open CallGrammar

/-- The call of an action, if it succeeds. -/
def acceptedBy (c : Codec) (s : Session) : Action → List Call
  | .call call =>
    match Writer.perform c call s.writer with
    | .ok _ _ => [call]
    | .error _ _ => []
  | .reserveName _ => []
  | .reserveLocalName => []

/-- The calls among the actions that succeed. -/
def accepted (c : Codec) : Session → List Action → List Call
  | _, [] => []
  | s, action :: rest => s.acceptedBy c action ++ accepted c (s.act c action) rest

variable {c : Codec} {s : Session}

theorem poisoned_act (h : s.writer.stage = .poisoned) (action : Action) :
    (s.act c action).writer.stage = .poisoned := by
  cases action with
  | call call =>
      unfold act
      dsimp only
      rw [Writer.perform_of_poisoned h]
      exact h
  | reserveName kind => exact h
  | reserveLocalName => exact h

theorem poisoned_run (h : s.writer.stage = .poisoned) (actions : List Action) :
    (s.run c actions).writer.stage = .poisoned := by
  induction actions generalizing s with
  | nil => exact h
  | cons action actions ih => exact ih (poisoned_act h action)

/-- An action that leaves the writer usable moves it on by the call that it accepts, if any. -/
theorem completes_act {action : Action} (active : (s.act c action).writer.stage ≠ .poisoned)
    (rest : List Call) :
    Completes s.writer.stage s.writer.depth (s.acceptedBy c action ++ rest) ↔
      Completes (s.act c action).writer.stage (s.act c action).writer.depth rest := by
  cases action with
  | call call =>
      unfold act at active ⊢
      unfold acceptedBy
      dsimp only at active ⊢
      cases performed : Writer.perform c call s.writer with
      | ok reply w =>
          have allowed := (Writer.perform_eq_ok performed).1
          have depth := Writer.depth_of_perform performed
          have stage := Writer.stage_of_perform performed
          simp [Completes, allowed, depth, stage]
      | error cause w =>
          -- The call is not counted, and indeed it has changed nothing.
          rw [performed] at active
          rcases Writer.unchanged_of_perform performed with same | poisoned
          · rw [same]
            rfl
          · exact absurd poisoned active
  | reserveName kind => rfl
  | reserveLocalName => rfl

theorem completes_run {actions : List Action}
    (active : (s.run c actions).writer.stage ≠ .poisoned) (rest : List Call) :
    Completes s.writer.stage s.writer.depth (s.accepted c actions ++ rest) ↔
      Completes (s.run c actions).writer.stage (s.run c actions).writer.depth rest := by
  induction actions generalizing s with
  | nil => rfl
  | cons action actions ih =>
      have active' : (s.act c action).writer.stage ≠ .poisoned :=
        fun poisoned => active (poisoned_run poisoned actions)
      rw [accepted, List.append_assoc, completes_act active']
      exact ih active

/-- A usable writer refuses a request as out of turn if and only if no sentence begins with the
calls that it accepted and this one; from then on it refuses every request as unusable. -/
theorem outOfTurn_iff_of_run (c : Codec) (sink : Sink) (actions : List Action)
    (next : Request) :
    let s := (c.session sink).run c actions
    s.writer.stage ≠ .poisoned →
      ((∃ p w, next.make c s.writer = .error (.protocol p) w) ↔
        ¬∃ sentence, Sentence anyContent sentence ∧
          ((c.session sink).accepted c actions).map .call ++ [next] <+: sentence) ∧
      ∀ p w, next.make c s.writer = .error (.protocol p) w →
        ∀ (later : List Action) (request : Request),
          let u := (({ s with writer := w } : Session).run c later).writer
          request.make c u = .error (.protocol .poisoned) u := by
  intro s active
  refine ⟨?_, ?_⟩
  · rw [Request.protocol_iff, inTurn_iff (completes_run (s := c.session sink) active)]
  · intro p w failed later request
    exact Request.make_of_poisoned (poisoned_run (Request.poisoned_of_protocol failed) later) request

/-- Inside of an element, behind a call that failed, the document cannot end. -/
theorem outOfTurn_iff_of_run_oneElement :
    let s := (oneElementCodec.session {}).run oneElementCodec (oneElementActions.take 7)
    s.writer.stage ≠ .poisoned ∧
      (∃ p w, Request.endDocument.make oneElementCodec s.writer = .error (.protocol p) w) ∧
      ¬∃ sentence, Sentence anyContent sentence ∧
        [Call.startDocument {}, .initiate, .mark, .elementName (.indexed 0), .endStartElement].map
          Request.call ++ [.endDocument] <+: sentence := by
  intro s
  have active : s.writer.stage ≠ .poisoned := by
    have stage : s.writer.stage = .content := by rfl
    rw [stage]
    nofun
  have failed : ∃ p w, Request.endDocument.make oneElementCodec s.writer = .error (.protocol p) w :=
    ⟨.unclosedElements 1, _, rfl⟩
  have order := outOfTurn_iff_of_run oneElementCodec {} (oneElementActions.take 7) .endDocument active
  exact ⟨active, failed, order.1.1 failed⟩

/-- Content that was not encoded elsewhere. -/
def encodedHere : Content → Prop
  | .undecoded _ _ _ => False
  | _ => True

/-- Octets that were encoded elsewhere are accepted inside of an element, so that the grammar has
to list them among the characters. -/
theorem not_outOfTurn_iff_of_undecoded :
    let s := (oneElementCodec.session {}).run oneElementCodec (oneElementActions.take 7)
    let next := Request.call (.characters (.undecoded .algorithm 40 [1]))
    s.writer.stage ≠ .poisoned ∧
      ¬((∃ p w, next.make oneElementCodec s.writer = .error (.protocol p) w) ↔
        ¬∃ sentence, Sentence encodedHere sentence ∧
          ((oneElementCodec.session {}).accepted oneElementCodec (oneElementActions.take 7)).map
            .call ++ [next] <+: sentence) := by
  intro s next
  have stage : s.writer.stage = .content := by rfl
  refine ⟨by rw [stage]; nofun, fun order => ?_⟩
  have unlisted : ¬∃ sentence, Sentence encodedHere sentence ∧
      ((oneElementCodec.session {}).accepted oneElementCodec (oneElementActions.take 7)).map
        .call ++ [next] <+: sentence := by
    rintro ⟨sentence, isSentence, begins⟩
    have mem : next ∈ sentence := begins.subset (by simp)
    exact listed_of_sentence isSentence mem
  obtain ⟨p, w, failed⟩ := order.2 unlisted
  cases failed

end Session

end BinaryXml
