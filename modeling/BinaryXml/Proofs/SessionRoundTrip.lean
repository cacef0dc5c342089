import BinaryXml.Proofs.SessionSteps

/-!
# Reading back sessions

The document of a session is read as its transcript, and between items both sides have the same
tables.
-/

namespace BinaryXml

open Decoder

namespace Writer

variable {c : Codec} {w w' : Writer} {t : Transcript}

/-! ## Runs -/

theorem Follows.of_alike (h : Follows c w t) (alike : Alike w w') (stage : w'.stage = w.stage)
    (firm : ∀ front, Firm w front → Firm w' front) : Follows c w' t where
  blank := by
    rw [stage]
    exact h.blank
  outcome := by
    have outcome := h.outcome
    cases received : t.received c with
    | ok r =>
        rw [received] at outcome
        exact InStep.of_alike outcome alike stage
    | error cause =>
        rw [received] at outcome
        obtain ⟨front, stays, fails⟩ := outcome
        exact ⟨front, firm front stays, fails⟩

/-- A reservation is nothing that a decoder could see. -/
theorem alike_reserveName (w : Writer) (kind : NameKind) : Alike w (w.reserveName kind).2 := by
  refine ⟨rfl, rfl, rfl, rfl, ?_⟩
  cases kind <;> rfl

theorem alike_reserveLocalName (w : Writer) : Alike w w.reserveLocalName.2 :=
  ⟨rfl, rfl, rfl, rfl, rfl⟩

theorem follows_writer (c : Codec) (sink : Sink) (empty : sink.written = #[]) :
    Follows c (c.writer sink) {} where
  blank _ _ := rfl
  outcome := by
    refine ⟨?_, rfl, rfl, c.settled_startingVocabulary, rfl⟩
    change sink.written.toList ++ [] = []
    rw [empty]
    rfl

end Writer

namespace Session

variable {c : Codec} {s : Session}

/-- A session stays readable until its writer is poisoned. -/
def IsFollowed (c : Codec) (s : Session) : Prop :=
  s.writer.stage = .poisoned ∨ Writer.Follows c s.writer s.transcript

theorem IsFollowed.act (h : s.IsFollowed c) (action : Action) : (s.act c action).IsFollowed c := by
  cases action with
  | call call =>
      unfold Session.act
      dsimp only
      split
      · next reply writer ok =>
          rcases h with poisoned | follows
          · cases ok.symm.trans (Writer.perform_of_poisoned poisoned)
          · exact .inr (follows.perform ok)
      · next cause writer failed =>
          rcases Writer.unchanged_of_perform failed with rfl | poisoned
          · exact h
          · exact .inl poisoned
  | reserveName kind =>
      rcases h with poisoned | follows
      · exact .inl poisoned
      · exact .inr (follows.of_alike (Writer.alike_reserveName _ _) rfl
          fun _ firm => ⟨firm.isPrefix, firm.ofStart⟩)
  | reserveLocalName =>
      rcases h with poisoned | follows
      · exact .inl poisoned
      · exact .inr (follows.of_alike (Writer.alike_reserveLocalName _) rfl
          fun _ firm => ⟨firm.isPrefix, firm.ofStart⟩)

theorem IsFollowed.run (h : s.IsFollowed c) (actions : List Action) :
    (s.run c actions).IsFollowed c := by
  induction actions generalizing s with
  | nil => exact h
  | cons action actions ih => exact ih (h.act action)

theorem isFollowed_session (c : Codec) (sink : Sink) (empty : sink.written = #[])
    (actions : List Action) : ((c.session sink).run c actions).IsFollowed c :=
  IsFollowed.run (.inr (Writer.follows_writer c sink empty)) actions

end Session

namespace Writer

variable {c : Codec} {w w' : Writer} {t : Transcript}

/-! ## What a decoder makes of it -/

/-- Between items a decoder that can unpack all content is at an item too. -/
theorem Follows.atItem (h : Follows c w t) (stage : w.stage = .content) {events : List Event}
    (known : t.events.mapM (Event.received c) = .ok events) :
    ∃ r, r.events = events ∧ AtItem c w r := by
  have outcome := h.outcome
  cases received : t.received c with
  | ok r =>
      rw [received] at outcome
      unfold Outcome InStep at outcome
      rw [stage] at outcome
      obtain ⟨same, -, -⟩ := Transcript.received_eq_ok received
      cases known.symm.trans same
      exact ⟨r, rfl, outcome⟩
  | error cause =>
      have blank := h.blank (by rw [stage]; decide) (by rw [stage]; decide)
      rw [Transcript.events_of_error blank received] at known
      cases known

theorem Follows.fails (h : Follows c w t) (stage : w.stage = .content) {cause : CodecError}
    (known : t.events.mapM (Event.received c) = .error cause) :
    ∃ front, front <+: w.octets ∧ Fails c front cause := by
  have outcome := h.outcome
  cases received : t.received c with
  | ok r =>
      rw [(Transcript.received_eq_ok received).1] at known
      cases known
  | error cause' =>
      rw [received] at outcome
      obtain ⟨front, firm, fails⟩ := outcome
      have blank := h.blank (by rw [stage]; decide) (by rw [stage]; decide)
      rw [Transcript.events_of_error blank received] at known
      cases known
      exact ⟨front, firm.isPrefix, fails⟩

theorem Follows.arrives (h : Follows c w t) (stage : w.stage = .content) {events : List Event}
    (known : t.events.mapM (Event.received c) = .ok events) :
    Arrives c w.flushed events w.readerState := by
  obtain ⟨r, rfl, atItem⟩ := h.atItem stage known
  exact atItem.arrives

/-- Between items a decoder has read the events received. -/
theorem Follows.consumeFront_eq (h : Follows c w t) (stage : w.stage = .content) :
    consumeFront c w.flushed =
      (t.events.mapM (Event.received c)).map (·, w.readerState) := by
  cases known : t.events.mapM (Event.received c) with
  | ok events => exact (h.arrives stage known).consumeFront_eq
  | error cause =>
      obtain ⟨front, ⟨more, octets⟩, fails⟩ := h.fails stage known
      rw [flushed, ← octets, List.append_assoc, fails.consume_eq]
      rfl

theorem endDocument_eq_ok (h : endDocument w = .ok () w') :
    w.stage = .content ∧ w.depth = 0 ∧ w'.sink.written.toList = w.terminate.flushed := by
  unfold endDocument at h
  split at h
  · cases h
  · split at h
    · cases h
    · next stage =>
        split at h
        · cases h
        · next depth =>
            refine ⟨Decidable.not_not.1 stage, by omega, ?_⟩
            unfold finish at h
            dsimp only at h
            split at h
            · cases h
            · next sink taken =>
                split at h
                · cases h
                · cases h
                  rw [← octets_settle]
                  unfold Sink.write at taken
                  split at taken <;> cases taken
                  exact Array.toList_append

/-- The whole document is read as the events received, and its end. -/
theorem Follows.decode_eq (h : Follows c w t) (ended : endDocument w = .ok () w') :
    c.decode w'.sink.written.toList =
      (t.events.mapM (Event.received c)).map (· ++ [.endDocument]) := by
  obtain ⟨stage, depth, written⟩ := endDocument_eq_ok ended
  rw [written]
  cases known : t.events.mapM (Event.received c) with
  | ok events =>
      obtain ⟨r, rfl, atItem⟩ := h.atItem stage known
      obtain ⟨before, completed, s, arrives, read, same⟩ := atItem.terminate
      have closed : w.closedState.phase = .ended := by
        rw [closedState, depth]
        rfl
      rw [depth] at same
      rw [flushed, arrives.decode_of_ended read closed, ← same]
      rfl
  | error cause =>
      obtain ⟨front, isFront, fails⟩ := h.fails stage known
      obtain ⟨more, octets⟩ := isFront.trans w.octets_terminate_prefix
      rw [flushed, ← octets, List.append_assoc, fails.decode_eq]
      rfl

end Writer

/-! ## Readable sessions -/

/-- The content of a call, if it has any, is readable. -/
def Action.IsReadable (c : Codec) : Action → Prop
  | .call request => ∀ content, request.content? = some content → content.IsReadable c
  | .reserveName _ => True
  | .reserveLocalName => True

namespace Session

variable {c : Codec} {s : Session}

theorem received_note_of_isReadable {w w' : Writer} {t : Transcript} {call : Call} {reply : Reply}
    (readable : ∀ content, call.content? = some content → content.IsReadable c)
    (h : t.received c = .ok t) (ok : Writer.perform c call w = .ok reply w') :
    (t.note c w.tables.vocabulary call).received c = .ok (t.note c w.tables.vocabulary call) := by
  cases plain : call.content? with
  | none => exact Transcript.received_note h plain _
  | some content =>
      obtain ⟨kind, r?, represented⟩ := Writer.represented_of_perform plain ok
      have known := Tables.received_of_represent (readable content plain) represented
      cases call with
      | attributeValue value =>
          cases plain
          have known : (content.asValue c).received c = .ok (content.asValue c) := by
            unfold Content.asValue
            split
            · rfl
            · exact known
          rw [Transcript.received_note_attributeValue h, known]
          rfl
      | characters value =>
          cases plain
          rw [Transcript.note]
          split
          · exact h
          · rw [Transcript.received_append h, Event.received, known]
            rfl
      | _ => cases plain

/-- A session with readable content is received as it was written down. -/
theorem received_act (h : s.transcript.received c = .ok s.transcript) {action : Action}
    (readable : action.IsReadable c) :
    (s.act c action).transcript.received c = .ok (s.act c action).transcript := by
  cases action with
  | call call =>
      unfold Session.act
      dsimp only
      split
      · next ok => exact received_note_of_isReadable readable h ok
      · exact h
  | reserveName kind => exact h
  | reserveLocalName => exact h

theorem received_run (h : s.transcript.received c = .ok s.transcript) {actions : List Action}
    (readable : ∀ a ∈ actions, a.IsReadable c) :
    (s.run c actions).transcript.received c = .ok (s.run c actions).transcript := by
  induction actions generalizing s with
  | nil => exact h
  | cons action actions ih =>
      have next := received_act h (readable action List.mem_cons_self)
      exact ih next fun a ha => readable a (List.mem_cons_of_mem _ ha)

/-- The events of a session with readable content are received as they are. -/
theorem mapM_received_session {sink : Sink} {actions : List Action}
    (readable : ∀ a ∈ actions, a.IsReadable c) :
    ((c.session sink).run c actions).transcript.events.mapM (Event.received c) =
      .ok ((c.session sink).run c actions).transcript.events :=
  (Transcript.received_eq_ok (received_run rfl readable)).1

/-- A decoder reads the events of the calls that succeeded, and the end of the document. -/
theorem decode_of_endDocument (c : Codec) (capacity? : Option Nat) (flushes : Bool)
    (actions : List Action) (readable : ∀ a ∈ actions, a.IsReadable c) (w : Writer)
    (ended : Writer.endDocument ((c.session { capacity?, flushes }).run c actions).writer =
      .ok () w) :
    c.decode w.sink.written.toList =
      .ok (((c.session { capacity?, flushes }).run c actions).transcript.events ++
        [.endDocument]) := by
  have followed := isFollowed_session c { capacity?, flushes } rfl actions
  rcases followed with poisoned | follows
  · have := (Writer.endDocument_eq_ok ended).1
    rw [poisoned] at this
    cases this
  · rw [follows.decode_eq ended, mapM_received_session readable]
    rfl

/-- A vocabulary that knows one element. -/
def oneElement : SharedVocabulary where
  externalUri := some "urn:one"
  vocabulary :=
    { Vocabulary.standard with
      elementNames :=
        { base := Roster.empty.push { localName := "a" } (by
            simp [Roster.empty, Roster.indexOf?]) } }
  reset_eq := rfl

/-- A codec whose documents start from it, and that keeps what it does not know. -/
def oneElementCodec : Codec where
  config := { unknownPacking := .keep }
  initial? := some oneElement
  externals := [("urn:one", oneElement)]
  initial_named v h := by
    cases h
    exact ⟨"urn:one", rfl, rfl⟩

/-- A session that reserves an index, asks for it before it has an entry, and goes on. -/
def oneElementActions : List Action :=
  [.reserveName .element, .call (.startDocument {}), .call .initiate, .call .mark,
    .call (.elementName (.indexed 1)), .call (.elementName (.indexed 0)), .call .endStartElement,
    .call (.characters (.typed 3 (.ints [7]))), .call (.characters (.undecoded .algorithm 40 [1])),
    .call .endElement]

theorem isReadable_oneElementActions :
    ∀ a ∈ oneElementActions, a.IsReadable oneElementCodec := by
  simp only [oneElementActions, List.forall_mem_cons, Action.IsReadable, Call.content?]
  refine ⟨trivial, nofun, nofun, nofun, nofun, nofun, nofun, ?_, ?_, nofun, nofun⟩
  · rintro content ⟨⟩ unknown
    cases unknown
  · rintro content ⟨⟩
    exact ⟨rfl, rfl⟩

theorem decode_of_endDocument_oneElement :
    ∃ w, Writer.endDocument ((oneElementCodec.session {}).run oneElementCodec
        oneElementActions).writer = .ok () w ∧
      oneElementCodec.decode w.sink.written.toList =
        .ok [.startDocument { externalVocabulary := some "urn:one" },
          .startElement { localName := "a" } [] [], .characters (.typed 3 (.ints [7])),
          .characters (.undecoded .algorithm 40 [1]), .endElement, .endDocument] := by
  obtain ⟨w, ended⟩ : ∃ w, Writer.endDocument ((oneElementCodec.session {}).run oneElementCodec
      oneElementActions).writer = .ok () w := ⟨_, rfl⟩
  have read := decode_of_endDocument oneElementCodec none true oneElementActions
    isReadable_oneElementActions w ended
  have events : ((oneElementCodec.session {}).run oneElementCodec
      oneElementActions).transcript.events =
    [.startDocument { externalVocabulary := some "urn:one" },
      .startElement { localName := "a" } [] [], .characters (.typed 3 (.ints [7])),
      .characters (.undecoded .algorithm 40 [1]), .endElement] := by rfl
  refine ⟨w, ended, ?_⟩
  rw [read, events]
  rfl

/-- Between items a decoder of any document that begins with the octets gets to a state with the
entries of the writer, unless it cannot unpack some content of the session. -/
theorem entries_of_consumeFront (c : Codec) (capacity? : Option Nat) (flushes : Bool)
    (actions : List Action)
    (between : ((c.session { capacity?, flushes }).run c actions).writer.stage = .content) :
    let w := ((c.session { capacity?, flushes }).run c actions).writer
    (∀ events s, consumeFront c w.flushed = .ok (events, s) →
      (∀ rest, c.decode (w.flushed ++ rest) =
        conclude (Decoder.run c s events.toArray ⟨rest, w.flushed.length⟩)) ∧
      (∀ kind, (s.vocabulary.strings kind).entries =
        (w.tables.vocabulary.strings kind).entries) ∧
      ∀ kind, (s.vocabulary.names kind).entries = (w.tables.vocabulary.names kind).entries) ∧
    ((∀ a ∈ actions, a.IsReadable c) →
      ∃ events s, consumeFront c w.flushed = .ok (events, s)) := by
  intro w
  have followed := isFollowed_session c { capacity?, flushes } rfl actions
  rcases followed with poisoned | follows
  · rw [poisoned] at between
    cases between
  · have consumed := follows.consumeFront_eq between
    refine ⟨?_, ?_⟩
    · intro events s reached
      cases received : ((c.session { capacity?, flushes }).run c actions).transcript.events.mapM
          (Event.received c) with
      | error cause =>
          rw [received] at consumed
          cases consumed.symm.trans reached
      | ok received' =>
          have arrives := follows.arrives between received
          cases arrives.consumeFront_eq.symm.trans reached
          refine ⟨arrives.decode_eq, ?_, ?_⟩
          · intro kind
            rw [Writer.readerState, Vocabulary.settled_strings, Table.settled_entries]
          · intro kind
            rw [Writer.readerState, Vocabulary.settled_names, Table.settled_entries]
    · intro readable
      rw [mapM_received_session readable] at consumed
      exact ⟨_, _, consumed⟩

theorem entries_of_consumeFront_oneElement :
    ∃ events s,
      consumeFront oneElementCodec ((oneElementCodec.session {}).run oneElementCodec
        (oneElementActions.take 9)).writer.flushed = .ok (events, s) ∧
      s.vocabulary.elementNames.entries = [({ localName := "a" }, 0)] := by
  have stage : ((oneElementCodec.session {}).run oneElementCodec
      (oneElementActions.take 9)).writer.stage = .content := by rfl
  obtain ⟨same, reached⟩ := entries_of_consumeFront oneElementCodec none true
    (oneElementActions.take 9) stage
  obtain ⟨events, s, consumed⟩ := reached fun a ha =>
    isReadable_oneElementActions a (List.mem_of_mem_take ha)
  have names : (((oneElementCodec.session {}).run oneElementCodec
      (oneElementActions.take 9)).writer.tables.vocabulary.names .element).entries =
    [({ localName := "a" }, 0)] := by rfl
  exact ⟨events, s, consumed, ((same events s consumed).2.2 .element).trans names⟩

end Session

end BinaryXml
