import BinaryXml.Proofs.CallOrder

/-!
# Octets that were written

What was written stays: requests put octets behind it, and only the announcement of attributes
changes one in place. What a sink refuses is lost, but then nothing can follow. Behind the mark of
an element the sink is left alone, so nothing can go wrong there but the making of an item.
-/

namespace BinaryXml

namespace Writer

variable {c : Codec} {call : Call} {w w' : Writer} {item : Item} {cause : CodecError}

/-! ## Writing behind a mark -/

theorem handOver_of_marked (marked : w.mark?.isSome = true) : handOver w = .ok () w := by
  unfold handOver
  rw [marked, Bool.true_or, if_pos rfl]

theorem settle_of_settled (settled : w.pending = .none) : w.settle = w := by
  unfold settle
  rw [settled]

/-- Behind a mark an item is put into the buffer, and nothing can stop that. -/
theorem write_of_marked (marked : w.mark?.isSome = true) (settled : w.pending = .none)
    (fresh : item.IsFresh w.tables) :
    write item w = .ok ()
      { w with buffer := w.buffer ++ item.octets, tables := item.enterInto w.tables } := by
  have put : handOver (w.settle.put item.octets) = .ok () (w.put item.octets) := by
    rw [settle_of_settled settled]
    exact handOver_of_marked marked
  rw [write_eq, bind_of_ok put, enter]
  split
  · next conflict => cases fresh.symm.trans conflict
  · rfl

/-- A call with an item writes it. -/
theorem carryOut_of_item? (made : call.item? c w.tables = .ok (some item)) :
    carryOut c call w = write item w := by
  cases call with
  | startDocument | declare | elementName | attributeName | attributeValue | comment
  | instruction =>
      have made := Call.made_of_map_some made
      simp only [carryOut, writeNew, made]
  | initiate | mark | startDeclarations | endDeclarations | startAttributes | endStartElement
  | endElement => cases made
  | characters content =>
      change Item.ofCharacters? c w.tables content = _ at made
      simp only [carryOut, made]

theorem stage_ne_poisoned_of_isAllowed (allowed : call.isAllowed w.stage w.depth = true) :
    w.stage ≠ .poisoned := by
  intro poisoned
  rw [poisoned, Call.isAllowed_poisoned] at allowed
  cases allowed

theorem perform_of_marked (marked : w.mark?.isSome = true) (settled : w.pending = .none)
    (allowed : call.isAllowed w.stage w.depth = true)
    (made : call.item? c w.tables = .ok (some item)) :
    perform c call w = .ok (w.reply call)
      { w with
        buffer := w.buffer ++ item.octets
        tables := item.enterInto w.tables
        stage := call.stageAfter } := by
  have written := write_of_marked marked settled (Call.isFresh_item? made)
  exact perform_of_carryOut (stage_ne_poisoned_of_isAllowed allowed)
    allowed ((carryOut_of_item? made).trans written)

/-! ## What calls do to the octets -/

/-- The writer that is left, whether what it was asked for succeeds or fails. -/
def after {α : Type} (p : Writing α) (w : Writer) : Writer :=
  match p w with
  | .ok _ w' => w'
  | .error _ w' => w'

theorem after_of_ok {α : Type} {p : Writing α} {a : α} (h : p w = .ok a w') : after p w = w' := by
  rw [after, h]

theorem after_of_error {α : Type} {p : Writing α} (h : p w = .error cause w') :
    after p w = w' := by
  rw [after, h]

theorem mark_settle_put (w : Writer) (octets : Octets) : (w.settle.put octets).mark? = w.mark? := by
  rw [settle_eq]
  rfl

theorem sink_after_enter (entries : List Entry) (w : Writer) :
    (after (enter entries) w).sink = w.sink := by
  unfold after enter
  cases entries.findSome? w.tables.conflict? <;> rfl

/-- Behind a mark nothing is handed over, whatever becomes of the item. -/
theorem sink_after_write (marked : w.mark?.isSome = true) (item : Item) :
    (after (write item) w).sink = w.sink := by
  have put : handOver (w.settle.put item.octets) = .ok () (w.settle.put item.octets) :=
    handOver_of_marked (by rwa [mark_settle_put])
  rw [after, write_eq, bind_of_ok put]
  exact (sink_after_enter item.entries _).trans (sink_settle_put w item.octets)

theorem sink_after_carryOut (marked : w.mark?.isSome = true) (other : call ≠ .endStartElement) :
    (after (carryOut c call) w).sink = w.sink := by
  have new (make : Writer → Except CodecError Item) : (after (writeNew make) w).sink = w.sink := by
    unfold after writeNew
    cases make w with
    | ok item => exact sink_after_write marked item
    | error cause => rfl
  cases call with
  | startDocument | declare | elementName | attributeName | attributeValue | comment
  | instruction => exact new _
  | initiate | startDeclarations | endDeclarations => rfl
  | mark =>
      change w.settle.sink = w.sink
      rw [settle_eq]
  | startAttributes =>
      change w.announceAttributes.sink = w.sink
      rw [announceAttributes_eq]
  | endStartElement => exact absurd rfl other
  | characters content =>
      unfold after carryOut
      dsimp only
      cases Item.ofCharacters? c w.tables content with
      | ok item? =>
          cases item? with
          | none => rfl
          | some item => exact sink_after_write marked item
      | error cause => rfl
  | endElement =>
      have kept : handOver { w.terminate with depth := w.depth - 1 } =
          .ok () { w.terminate with depth := w.depth - 1 } := by
        refine handOver_of_marked ?_
        change w.terminate.mark?.isSome = true
        rwa [terminate_eq]
      rw [after_of_ok (show carryOut c .endElement w = _ from kept)]
      exact sink_terminate w

/-- A call that fails has not begun, or fails at what it does. -/
theorem perform_error_cases (h : perform c call w = .error cause w') :
    w' = w ∨ w' = { w with stage := .poisoned } ∨ carryOut c call w = .error cause w' := by
  unfold perform at h
  split at h
  · cases h
    exact .inl rfl
  · split at h
    · rcases bind_eq_error h with failed | ⟨_, _, -, moved⟩
      · exact .inr (.inr failed)
      · cases moved
    · cases h
      exact .inr (.inl rfl)

theorem sink_after_perform (marked : w.mark?.isSome = true) (other : call ≠ .endStartElement) :
    (after (perform c call) w).sink = w.sink := by
  have kept := sink_after_carryOut (c := c) marked other
  cases performed : perform c call w with
  | ok reply w' =>
      obtain ⟨-, u, done, rfl⟩ := perform_eq_ok performed
      rw [after_of_ok done] at kept
      rw [after_of_ok performed, ← kept]
  | error cause w' =>
      rw [after_of_error performed]
      rcases perform_error_cases performed with rfl | rfl | failed
      · rfl
      · rfl
      · rw [← after_of_error failed, kept]

theorem lost_of_handOver (h : handOver w = .error cause w') :
    w'.sink = w.sink ∧ w'.buffer = #[] := by
  unfold handOver at h
  split at h
  · cases h
  · split at h <;> cases h
    exact ⟨rfl, rfl⟩

variable {reason : String}

theorem lost_of_write (h : write item w = .error (.sink reason) w') :
    w'.sink = w.sink ∧ w'.buffer = #[] := by
  rw [write_eq] at h
  rcases bind_eq_error h with refused | ⟨_, u, -, conflict⟩
  · obtain ⟨sink, buffer⟩ := lost_of_handOver refused
    exact ⟨sink.trans (sink_settle_put w _), buffer⟩
  · unfold enter at conflict
    split at conflict <;> cases conflict

/-- Octets that the sink refuses are those of the buffer. -/
theorem lost_of_carryOut (h : carryOut c call w = .error (.sink reason) w') :
    w' = w ∨ (w'.sink = w.sink ∧ w'.buffer = #[]) := by
  have new {make : Writer → Except CodecError Item}
      (failed : writeNew make w = .error (.sink reason) w') :
      w' = w ∨ (w'.sink = w.sink ∧ w'.buffer = #[]) := by
    unfold writeNew at failed
    split at failed
    · exact .inr (lost_of_write failed)
    · cases failed
      exact .inl rfl
  unfold carryOut at h
  cases call with
  | startDocument | declare | elementName | attributeName | attributeValue | comment
  | instruction => exact new h
  | initiate | mark | startDeclarations | endDeclarations | startAttributes => cases h
  | endStartElement =>
      obtain ⟨sink, buffer⟩ := lost_of_handOver h
      refine .inr ⟨sink.trans ?_, buffer⟩
      change (if w.stage = .attributes then w.terminate else w).sink = w.sink
      split
      · exact sink_terminate w
      · rfl
  | characters content =>
      dsimp only at h
      split at h
      · exact .inr (lost_of_write h)
      · cases h
      · cases h
        exact .inl rfl
  | endElement =>
      obtain ⟨sink, buffer⟩ := lost_of_handOver h
      exact .inr ⟨sink.trans (sink_terminate w), buffer⟩

/-- What was written stays, or else the sink has refused the whole buffer. -/
theorem octets_of_perform_error (h : perform c call w = .error cause w') :
    w.octets <+: w'.octets ∨
      ∃ reason, cause = .sink reason ∧ w'.sink = w.sink ∧ w'.buffer = #[] := by
  rcases perform_error_cases h with rfl | rfl | failed
  · exact .inl List.prefix_rfl
  · exact .inl List.prefix_rfl
  · rcases carryOut_eq_error failed with ⟨-, rfl⟩ | blocked
    · exact .inl List.prefix_rfl
    · obtain ⟨reason, rfl⟩ := blocked.cause_eq
      rcases lost_of_carryOut failed with rfl | ⟨sink, buffer⟩
      · exact .inl List.prefix_rfl
      · exact .inr ⟨reason, rfl, sink, buffer⟩

/-- The end of a document is put behind what was written. -/
theorem octets_prefix_after_finish (w : Writer) : w.octets <+: (after finish w).octets := by
  have ended : w.octets <+: w.terminate.settle.octets := by
    rw [octets_settle]
    exact w.octets_terminate_prefix.trans (List.prefix_append _ _)
  unfold after finish
  cases taken : w.terminate.settle.sink.write w.terminate.settle.buffer with
  | error reason =>
      simp only [taken]
      exact ended
  | ok sink =>
      have written : w.octets <+: sink.written.toList ++ [] := by
        unfold Sink.write at taken
        split at taken <;> cases taken
        rw [Array.toList_append, List.append_nil]
        exact ended
      cases flushed : sink.flush with
      | error reason =>
          simp only [taken, flushed]
          exact written
      | ok _ =>
          simp only [taken, flushed]
          exact written

theorem endDocument_cases (w : Writer) :
    (∃ cause, endDocument w = .error cause w) ∨
      (∃ cause, endDocument w = .error cause { w with stage := .poisoned }) ∨
      endDocument w = finish w := by
  unfold endDocument
  split
  · exact .inl ⟨_, rfl⟩
  · split
    · exact .inr (.inl ⟨_, rfl⟩)
    · split
      · exact .inr (.inl ⟨_, rfl⟩)
      · exact .inr (.inr rfl)

theorem sink_after_endDocument (elsewhere : w.stage ≠ .content) :
    (after endDocument w).sink = w.sink := by
  by_cases poisoned : w.stage = .poisoned
  · exact congrArg Writer.sink (after_of_error (if_pos poisoned))
  · have refused : endDocument w =
        refuse (.unexpectedCall "end_document" (w.stage.situation w.depth)) w := by
      rw [endDocument, if_neg poisoned, if_pos elsewhere]
    rw [after, refused]
    rfl

theorem octets_prefix_after_endDocument (w : Writer) :
    w.octets <+: (after endDocument w).octets := by
  rcases endDocument_cases w with ⟨cause, refused⟩ | ⟨cause, refused⟩ | finished
  · exact (after_of_error refused).symm ▸ List.prefix_rfl
  · have kept : (after endDocument w).octets = w.octets := by
      rw [after_of_error refused]
      rfl
    exact kept.symm ▸ List.prefix_rfl
  · have written := octets_prefix_after_finish w
    unfold after at written ⊢
    rwa [finished]

end Writer

/-! ## Requests -/

namespace Request

variable {c : Codec} {w : Writer}

theorem make_call_eq_ok {asked : Call} {w' : Writer} :
    (Request.call asked).make c w = .ok () w' ↔
      ∃ reply, Writer.perform c asked w = .ok reply w' := by
  constructor
  · intro h
    obtain ⟨reply, u, performed, replied⟩ := bind_eq_ok h
    cases replied
    exact ⟨reply, performed⟩
  · rintro ⟨reply, performed⟩
    exact bind_of_ok performed

theorem after_make_call (asked : Call) :
    Writer.after ((Request.call asked).make c) w = Writer.after (Writer.perform c asked) w := by
  cases performed : Writer.perform c asked w with
  | ok reply w' =>
      rw [Writer.after_of_ok performed, Writer.after_of_ok (make_call_eq_ok.2 ⟨reply, performed⟩)]
  | error cause w' =>
      rw [Writer.after_of_error performed, Writer.after_of_error (make_call_eq_error.2 performed)]

/-- Unless attributes are announced, all octets stay as they are, or the sink has refused those in
the buffer. -/
theorem octets_after_make {request : Request}
    (unannounced : w.stage = .named → request ≠ .call .startAttributes) :
    w.octets <+: (Writer.after (request.make c) w).octets ∨
      ∃ reason, request.make c w = .error (.sink reason) (Writer.after (request.make c) w) ∧
        (Writer.after (request.make c) w).sink = w.sink ∧
        (Writer.after (request.make c) w).buffer = #[] := by
  cases request with
  | endDocument => exact .inl (Writer.octets_prefix_after_endDocument w)
  | call asked =>
      cases performed : Writer.perform c asked w with
      | ok reply w' =>
          rw [Writer.after_of_ok (make_call_eq_ok.2 ⟨reply, performed⟩)]
          obtain ⟨allowed, u, done, rfl⟩ := Writer.perform_eq_ok performed
          have other : asked ≠ .startAttributes := by
            rintro rfl
            exact unannounced (by simpa [Call.isAllowed] using allowed) rfl
          exact .inl (Writer.octets_prefix_of_carryOut done other :)
      | error cause w' =>
          have failed := make_call_eq_error.2 performed
          rw [Writer.after_of_error failed]
          rcases Writer.octets_of_perform_error performed with stays | ⟨reason, rfl, lost⟩
          · exact .inl stays
          · exact .inr ⟨reason, failed, lost⟩

end Request

end BinaryXml
