import BinaryXml.Proofs.DecoderFollows

/-!
# Steps of a session

Every call that succeeds keeps the decoder in step with the writer, or gives it content that it
cannot unpack; then the decoder fails on octets that no later call changes. Calls that fail and
reservations of indices leave both sides as they are.
-/

namespace BinaryXml

open Decoder

/-- The stages in which the first octet of an element may still change. -/
def Stage.isInStart : Stage → Bool
  | marked => true
  | declaring => true
  | declared => true
  | named => true
  | _ => false

namespace Writer

variable {c : Codec} {w w' : Writer} {t r : Transcript} {call : Call} {reply : Reply}

/-! ## Octets that stay -/

/-- The octets `front` stay in front of all that is ever written. -/
structure Firm (w : Writer) (front : Octets) : Prop where
  isPrefix : front <+: w.octets
  ofStart : w.stage.isInStart = true → ∃ base tail, w.octets = base ++ tail ∧
    w.markedAt? = some base.length ∧ front <+: base

section Firm

variable {front more : Octets} {stage : Stage}

theorem firm_outside (h : front <+: w.octets) (outside : stage.isInStart = false) :
    Firm { w with stage } front :=
  ⟨h, fun inside => by rw [outside] at inside; cases inside⟩

theorem Firm.inside (h : Firm w front) (inside : w.stage.isInStart = true)
    (octets : w'.octets = w.octets ++ more) (marked : w'.markedAt? = w.markedAt?) :
    Firm { w' with stage } front where
  isPrefix := h.isPrefix.trans ⟨more, octets.symm⟩
  ofStart _ := by
    obtain ⟨base, tail, split, at?, stays⟩ := h.ofStart inside
    exact ⟨base, tail ++ more, by rw [← List.append_assoc, ← split]; exact octets,
      marked.trans at?, stays⟩

/-- Marking an element makes all octets before it firm. -/
theorem firm_mark (h : front <+: w.octets) :
    Firm { w.settle with mark? := some w.settle.buffer.size, stage := .marked } front := by
  have stays : front <+: w.settle.octets := by
    rw [octets_settle]
    exact h.trans (List.prefix_append _ _)
  refine ⟨stays, fun _ => ⟨w.settle.octets, [], (List.append_nil _).symm, ?_, stays⟩⟩
  simp [markedAt?, Writer.octets]

theorem Firm.announceAttributes (h : Firm w front) (named : w.stage = .named) :
    front <+: w.announceAttributes.octets := by
  obtain ⟨base, tail, split, marked, stays⟩ := h.ofStart (by rw [named]; rfl)
  rw [octets_announceAttributes split marked]
  exact stays.trans (List.prefix_append _ _)

theorem Firm.perform (h : Firm w front) (ok : perform c call w = .ok reply w') :
    Firm w' front := by
  obtain ⟨allowed, u, done, rfl⟩ := perform_eq_ok ok
  have outside (other : call ≠ .startAttributes) (after : call.stageAfter.isInStart = false) :
      Firm { u with stage := call.stageAfter } front :=
    firm_outside (h.isPrefix.trans (octets_prefix_of_carryOut done other)) after
  have wroteInside {make : Writer → Except CodecError Item} (done : writeNew make w = .ok () u)
      (inside : w.stage.isInStart = true) (stage : Stage) : Firm { u with stage } front := by
    obtain ⟨item, -, wrote⟩ := wrote_of_writeNew done
    exact h.inside inside wrote.octets_append wrote.markedAt_eq
  cases call with
  | startDocument | initiate | attributeName | attributeValue | endStartElement | characters
  | endElement | comment | instruction => exact outside nofun rfl
  | declare =>
      have stage : w.stage = .declaring := by simpa [Call.isAllowed] using allowed
      unfold carryOut at done
      exact wroteInside done (by rw [stage]; rfl) _
  | elementName =>
      have inside : w.stage.isInStart = true := by
        have : w.stage = .marked ∨ w.stage = .declared := by simpa [Call.isAllowed] using allowed
        rcases this with stage | stage <;> rw [stage] <;> rfl
      unfold carryOut at done
      exact wroteInside done inside _
  | mark =>
      cases done
      exact firm_mark h.isPrefix
  | startDeclarations =>
      have stage : w.stage = .marked := by simpa [Call.isAllowed] using allowed
      cases done
      exact h.inside (by rw [stage]; rfl) (octets_put _ _) rfl
  | endDeclarations =>
      have stage : w.stage = .declaring := by simpa [Call.isAllowed] using allowed
      cases done
      exact h.inside (by rw [stage]; rfl) (octets_put _ _) rfl
  | startAttributes =>
      have stage : w.stage = .named := by simpa [Call.isAllowed] using allowed
      cases done
      exact firm_outside (h.announceAttributes stage) rfl

end Firm

/-! ## One call -/

/-- What is received of the transcript tells whether a decoder is as far as the writer or failed
on content that it cannot unpack. -/
def Outcome (c : Codec) (w : Writer) : Except CodecError Transcript → Prop
  | .ok r => InStep c w r
  | .error cause => ∃ front, Firm w front ∧ Fails c front cause

structure Follows (c : Codec) (w : Writer) (t : Transcript) : Prop where
  blank : w.stage ≠ .attributes → w.stage ≠ .value → t.attributes = []
  outcome : Outcome c w (t.received c)

theorem inStep_of_plain (h : InStep c w t)
    (blank : w.stage ≠ .attributes → w.stage ≠ .value → t.attributes = [])
    (plain : call.content? = none) (ok : perform c call w = .ok reply w') :
    InStep c w' (t.note c w.tables.vocabulary call) := by
  obtain ⟨allowed, u, done, rfl⟩ := perform_eq_ok ok
  unfold InStep at h
  cases call with
  | startDocument header =>
      have stage : w.stage = .idle := by simpa [Call.isAllowed] using allowed
      rw [stage] at h
      unfold carryOut at done
      obtain ⟨item, made, wrote⟩ := wrote_of_writeNew done
      exact Untouched.header h made (wrote.moveTo _)
  | initiate =>
      have stage : w.stage = .started := by simpa [Call.isAllowed] using allowed
      rw [stage] at h
      cases done
      exact AtItem.of_alike h (alike_moveTo _ _)
  | mark =>
      have stage : w.stage = .content := by simpa [Call.isAllowed] using allowed
      rw [stage] at h
      cases done
      have start := AtItem.mark h
      refine ⟨?_, rfl⟩
      have kept : w.settle.tables = w.tables := by rw [settle_eq]
      rw [← kept] at start
      exact start.of_alike (alike_moveTo _ _)
  | startDeclarations =>
      have stage : w.stage = .marked := by simpa [Call.isAllowed] using allowed
      rw [stage] at h
      cases done
      obtain ⟨start, undeclared⟩ := h
      have put : InStart c (w.put [Mark.declarations]) t w.octets [Mark.declarations] _ :=
        start.extend (octets_put _ _) rfl start.settled rfl rfl
      exact ⟨_, _, _, put.of_alike (alike_moveTo _ _), readsDeclarations_start undeclared⟩
  | declare nsPrefix namespaceName =>
      have stage : w.stage = .declaring := by simpa [Call.isAllowed] using allowed
      rw [stage] at h
      obtain ⟨base, tail, v, start, reads⟩ := h
      unfold carryOut at done
      obtain ⟨item, made, wrote⟩ := wrote_of_writeNew done
      exact ⟨base, _, v, start.wrote (wrote.moveTo _) rfl, reads.declare made (wrote.moveTo _)⟩
  | endDeclarations =>
      have stage : w.stage = .declaring := by simpa [Call.isAllowed] using allowed
      rw [stage] at h
      cases done
      obtain ⟨base, tail, v, start, reads⟩ := h
      have put : InStart c (w.put [Mark.terminator]) t base (tail ++ [Mark.terminator]) v :=
        start.extend (octets_put _ _) rfl start.settled rfl rfl
      exact ⟨base, tail, v, put.of_alike (alike_moveTo _ _), reads⟩
  | elementName reference =>
      unfold carryOut at done
      obtain ⟨item, made, wrote⟩ := wrote_of_writeNew done
      have turn : w.stage = .marked ∨ w.stage = .declared := by
        simpa [Call.isAllowed] using allowed
      rcases turn with stage | stage
      · rw [stage] at h
        obtain ⟨start, undeclared⟩ := h
        have blank := blank (by rw [stage]; nofun) (by rw [stage]; nofun)
        exact ⟨w.octets, item.octets, _, start.wrote (wrote.moveTo _) rfl,
          readsName_start undeclared blank made (wrote.moveTo _)⟩
      · rw [stage] at h
        obtain ⟨base, tail, v, start, reads⟩ := h
        have blank := blank (by rw [stage]; nofun) (by rw [stage]; nofun)
        exact ⟨base, _, v, start.wrote (wrote.moveTo _) rfl,
          reads.elementName blank made (wrote.moveTo _)⟩
  | startAttributes =>
      have stage : w.stage = .named := by simpa [Call.isAllowed] using allowed
      rw [stage] at h
      cases done
      obtain ⟨base, tail, v, start, reads⟩ := h
      exact (start.startAttributes reads).of_alike (alike_moveTo _ _)
  | attributeName reference =>
      have stage : w.stage = .attributes := by simpa [Call.isAllowed] using allowed
      rw [stage] at h
      unfold carryOut at done
      obtain ⟨item, made, wrote⟩ := wrote_of_writeNew done
      exact ⟨_, _, _, AtAttributes.attributeName h made (wrote.moveTo _)⟩
  | endStartElement =>
      have agrees := agrees_of_handOver done
      dsimp only at agrees
      have turn : w.stage = .named ∨ w.stage = .attributes := by
        simpa [Call.isAllowed] using allowed
      rcases turn with stage | stage
      · rw [stage] at h
        rw [if_neg (by rw [stage]; nofun)] at agrees
        obtain ⟨base, tail, v, start, reads⟩ := h
        exact (start.endStartElement reads).of_alike (agrees.moveTo _).alike
      · rw [stage] at h
        rw [if_pos stage] at agrees
        exact (AtAttributes.endStartElement h).of_alike (agrees.moveTo _).alike
  | endElement =>
      have turn : w.stage = .content ∧ 0 < w.depth := by simpa [Call.isAllowed] using allowed
      rw [turn.1] at h
      have agrees := agrees_of_handOver done
      exact (AtItem.endElement h turn.2).of_alike (agrees.moveTo _).alike
  | comment text =>
      have stage : w.stage = .content := by simpa [Call.isAllowed] using allowed
      rw [stage] at h
      unfold carryOut at done
      obtain ⟨item, made, wrote⟩ := wrote_of_writeNew done
      exact AtItem.wrote h (wrote.moveTo _) (yields_comment made wrote.fresh w.depth)
  | instruction target data =>
      have stage : w.stage = .content := by simpa [Call.isAllowed] using allowed
      rw [stage] at h
      unfold carryOut at done
      obtain ⟨item, made, wrote⟩ := wrote_of_writeNew done
      exact AtItem.wrote h (wrote.moveTo _) (yields_instruction made wrote.fresh w.depth)
  | attributeValue value => cases plain
  | characters content => cases plain

/-- The octets of a writer outside the start of an element are firm. -/
theorem firm_octets (outside : w.stage.isInStart = false) : Firm w w.octets :=
  ⟨List.prefix_rfl, fun inside => by rw [outside] at inside; cases inside⟩

theorem outcome_attributeValue {value : Content} (h : InStep c w r)
    (received : t.received c = .ok r)
    (ok : perform c (.attributeValue value) w = .ok reply w') :
    Outcome c w' ((t.note c w.tables.vocabulary (.attributeValue value)).received c) := by
  obtain ⟨allowed, u, done, rfl⟩ := perform_eq_ok ok
  have stage : w.stage = .value := by simpa [Call.isAllowed] using allowed
  unfold InStep at h
  rw [stage] at h
  obtain ⟨front, back, s, h⟩ := h
  unfold carryOut at done
  obtain ⟨item, made, wrote⟩ := wrote_of_writeNew done
  rw [Transcript.received_note_attributeValue received]
  cases known : (value.asValue c).received c with
  | ok value' => exact h.attributeValue made (wrote.moveTo _) known
  | error cause => exact ⟨_, firm_octets rfl, h.fails made (wrote.moveTo _) known⟩

theorem outcome_characters {content : Content} (h : InStep c w r)
    (received : t.received c = .ok r) (ok : perform c (.characters content) w = .ok reply w') :
    Outcome c w' ((t.note c w.tables.vocabulary (.characters content)).received c) := by
  obtain ⟨allowed, u, done, rfl⟩ := perform_eq_ok ok
  have turn : w.stage = .content ∧ 0 < w.depth := by simpa [Call.isAllowed] using allowed
  unfold InStep at h
  rw [turn.1] at h
  have h : AtItem c w r := h
  unfold carryOut at done
  dsimp only at done
  split at done
  · next item made =>
      have wrote := wrote_of_write done
      rw [Transcript.note, Item.isVacuous_of_ofCharacters? made, if_neg (by simp),
        Transcript.received_append received, Event.received]
      cases known : content.received c with
      | ok content' => exact h.characters turn.2 made (wrote.moveTo _) known
      | error cause => exact ⟨_, firm_octets rfl, h.fails turn.2 made (wrote.moveTo _) known⟩
  · next made =>
      cases done
      rw [Transcript.note, Item.isVacuous_of_ofCharacters? made, if_pos (by simp), received]
      exact h.of_alike (alike_moveTo _ _)
  · cases done

/-- Attributes are there only while the attributes of an element are written. -/
theorem attributes_of_allowed (h : w.stage ≠ .attributes → w.stage ≠ .value → t.attributes = [])
    (allowed : call.isAllowed w.stage w.depth = true)
    (early : call.isAllowed .attributes w.depth = false)
    (early' : call.isAllowed .value w.depth = false) : t.attributes = [] := by
  refine h ?_ ?_
  · intro stage
    rw [stage, early] at allowed
    cases allowed
  · intro stage
    rw [stage, early'] at allowed
    cases allowed

theorem blank_of_perform (h : w.stage ≠ .attributes → w.stage ≠ .value → t.attributes = [])
    (ok : perform c call w = .ok reply w') (outside : w'.stage ≠ .attributes)
    (outside' : w'.stage ≠ .value) :
    (t.note c w.tables.vocabulary call).attributes = [] := by
  obtain ⟨allowed, u, -, rfl⟩ := perform_eq_ok ok
  have held := attributes_of_allowed h allowed
  cases call with
  | startAttributes | attributeValue => exact absurd rfl outside
  | attributeName => exact absurd rfl outside'
  | mark | endStartElement => rfl
  | startDocument | initiate | startDeclarations | declare | endDeclarations | elementName
  | endElement | comment | instruction => exact held rfl rfl
  | characters content =>
      rw [Transcript.note]
      split <;> exact held rfl rfl

/-- Where one content cannot be unpacked, a later call changes nothing. -/
theorem received_note_of_error {cause : CodecError}
    (blank : w.stage ≠ .attributes → w.stage ≠ .value → t.attributes = [])
    (unknown : t.received c = .error cause) (ok : perform c call w = .ok reply w') :
    (t.note c w.tables.vocabulary call).received c = .error cause := by
  obtain ⟨allowed, u, -, rfl⟩ := perform_eq_ok ok
  have held := attributes_of_allowed blank allowed
  cases call with
  | startDocument | endElement | comment | instruction =>
      exact Transcript.received_of_events (Transcript.events_of_error (held rfl rfl) unknown)
        (List.prefix_append _ _)
  | mark =>
      exact Transcript.received_of_events (Transcript.events_of_error (held rfl rfl) unknown)
        List.prefix_rfl
  | initiate | startDeclarations | endDeclarations | startAttributes => exact unknown
  | declare | elementName | attributeName => exact Transcript.received_congr unknown rfl rfl
  | endStartElement => exact Transcript.received_note_endStartElement_of_error unknown _
  | attributeValue value => exact Transcript.received_note_attributeValue_of_error unknown _ value
  | characters content =>
      rw [Transcript.note]
      split
      · exact unknown
      · exact Transcript.received_of_events (Transcript.events_of_error (held rfl rfl) unknown)
          (List.prefix_append _ _)

/-- A call that succeeds keeps the decoder in step, unless the decoder fails on its content. -/
theorem Follows.perform (h : Follows c w t) (ok : Writer.perform c call w = .ok reply w') :
    Follows c w' (t.note c w.tables.vocabulary call) := by
  refine ⟨blank_of_perform h.blank ok, ?_⟩
  have outcome := h.outcome
  cases received : t.received c with
  | error cause =>
      rw [received] at outcome
      obtain ⟨front, firm, fails⟩ := outcome
      rw [received_note_of_error h.blank received ok]
      exact ⟨front, firm.perform ok, fails⟩
  | ok r =>
      rw [received] at outcome
      cases plain : call.content? with
      | none =>
          rw [Transcript.received_note received plain]
          obtain ⟨-, attributes, -⟩ := Transcript.received_eq_ok received
          refine inStep_of_plain outcome ?_ plain ok
          intro outside outside'
          rw [h.blank outside outside'] at attributes
          exact (Except.ok.inj attributes).symm
      | some content =>
          cases call with
          | attributeValue value => exact outcome_attributeValue outcome received ok
          | characters content => exact outcome_characters outcome received ok
          | _ => cases plain

end Writer

end BinaryXml
