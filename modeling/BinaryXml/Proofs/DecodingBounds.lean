import BinaryXml.Proofs.SelfDelimiting

/-!
# Decoding moves on

A reader moves forward whether it succeeds or fails, and never past the last octet. A decoder takes
at least one octet in each of its steps, be it before an item, among declarations or among
attributes, and completes at most two events with it. So at any point of any document, however
malformed, it has taken few steps and completed few events for the octets that it has read.
-/

namespace BinaryXml

/-! ## Moving forward -/

namespace Input

theorem Follows.offset_le {later earlier : Input} (h : later.Follows earlier) :
    earlier.offset ≤ later.offset := by
  have fewer := h.rest_suffix.length_le
  have same : later.offset + later.rest.length = earlier.offset + earlier.rest.length := h.total_eq
  omega

theorem Follows.offset_lt {later earlier : Input} (h : later.Follows earlier)
    (fewer : later.rest.length < earlier.rest.length) : earlier.offset < later.offset := by
  have same : later.offset + later.rest.length = earlier.offset + earlier.rest.length := h.total_eq
  omega

/-- The input has reached a place inside of a document, or its end. -/
structure Within (i : Input) (document : Octets) : Prop where
  offset_le : i.offset ≤ document.length
  rest_eq : i.rest = document.drop i.offset

theorem Within.of_follows {i : Input} {document : Octets} (h : i.Follows ⟨document, 0⟩) :
    i.Within document := by
  obtain ⟨front, split⟩ := h.rest_suffix
  have same : i.offset + i.rest.length = 0 + document.length := h.total_eq
  dsimp only at split
  subst split
  rw [List.length_append] at same
  have place : i.offset = front.length := by omega
  constructor
  · rw [List.length_append]
    omega
  · rw [place, List.drop_left]

end Input

section Direction

variable {ε α β : Type}

/-- The input that a reader leaves, whether it succeeds or fails. -/
def left : EStateM.Result ε Input α → Input
  | .ok _ i => i
  | .error _ i => i

/-- Whether the reader succeeds or fails, the input that it leaves follows the one it began with. -/
def Forward (p : EStateM ε Input α) : Prop :=
  ∀ i, (left (p i)).Follows i

/-- A reader that moves forward when it succeeds and fails on the spot. -/
theorem Forward.of_consumes {p : EStateM ε Input α} (moves : Consumes p)
    (stays : ∀ i cause i', p i = .error cause i' → i' = i) : Forward p := by
  intro i
  cases read : p i with
  | ok a i' => exact moves i a i' read
  | error cause i' =>
      rw [stays i cause i' read]
      exact .refl i

theorem forward_pure (a : α) : Forward (pure a : EStateM ε Input α) := fun i => .refl i

theorem forward_throw (cause : ε) : Forward (throw cause : EStateM ε Input α) := fun i => .refl i

theorem Forward.bind {p : EStateM ε Input α} {f : α → EStateM ε Input β} (hp : Forward p)
    (hf : ∀ a, Forward (f a)) : Forward (p >>= f) := by
  intro i
  have first := hp i
  cases read : p i with
  | ok a i' =>
      rw [read] at first
      rw [bind_of_ok read]
      exact (hf a i').trans first
  | error cause i' =>
      rw [read] at first
      rw [bind_of_error read]
      exact first

theorem Forward.map {p : EStateM ε Input α} (h : Forward p) (f : α → β) : Forward (f <$> p) :=
  h.bind fun a => forward_pure (f a)

theorem forward_ite {c : Prop} [Decidable c] {p q : EStateM ε Input α} (hp : Forward p)
    (hq : Forward q) : Forward (if c then p else q) := by
  split
  · exact hp
  · exact hq

end Direction

/-! ## Octets, numbers and representations -/

namespace Parser

theorem forward_octet : Forward octet := by
  apply Forward.of_consumes consumes_octet
  intro i cause i' failed
  unfold octet at failed
  split at failed
  · cases failed
    rfl
  · cases failed

theorem forward_slice (count : Nat) : Forward (slice count) := by
  apply Forward.of_consumes (consumes_slice count)
  intro i cause i' failed
  unfold slice at failed
  dsimp only at failed
  split at failed
  · cases failed
  · cases failed
    rfl

theorem forward_octets (count : Nat) : Forward (octets count) := by
  induction count with
  | zero => exact forward_pure _
  | succ count ih => exact forward_octet.bind fun _ => ih.bind fun _ => forward_pure _

theorem forward_unexpected {α : Type} (octet : UInt8) (context : String) :
    Forward (unexpected octet context : Parser α) :=
  fun i => .refl i

theorem forward_text (encoding : CharacterEncoding) (octets : Octets) :
    Forward (text encoding octets) := by
  unfold text ofExcept
  split
  · exact forward_pure _
  · exact forward_throw _

end Parser

namespace Ladder

variable (l : Ladder) (first : UInt8)

theorem forward_read {readTail : Nat → Parser Octets} (tails : ∀ n, Forward (readTail n)) :
    Forward (l.read readTail first) := by
  unfold read
  split
  · exact Parser.forward_unexpected _ _
  · exact (tails _).bind fun _ => forward_pure _

theorem forward_readIndex : Forward (l.readIndex first) :=
  l.forward_read first Parser.forward_octets

theorem forward_readString : Forward (l.readString first) :=
  (l.forward_read first Parser.forward_slice).bind Parser.forward_slice

end Ladder

namespace Representation

theorem forward_readIdentifying : Forward readIdentifying := by
  apply Parser.forward_octet.bind
  intro first
  apply forward_ite
  · exact (Ladder.forward_readString _ _).bind fun _ =>
      (Parser.forward_text _ _).bind fun _ => forward_pure _
  · exact (Ladder.forward_readIndex _ _).bind fun _ => forward_pure _

theorem forward_readInManner (l : Ladder) (first : UInt8) :
    Forward (readInManner l first) := by
  unfold readInManner
  dsimp only
  split
  · exact (l.forward_readString _).bind fun _ =>
      (Parser.forward_text _ _).bind fun _ => forward_pure _
  · exact Parser.forward_octet.bind fun _ =>
      (l.forward_readString _).bind fun _ => forward_pure _

theorem forward_readNonIdentifying : Forward readNonIdentifying := by
  apply Parser.forward_octet.bind
  intro first
  apply forward_ite (forward_pure _)
  apply forward_ite
  · exact (Ladder.forward_readIndex _ _).bind fun _ => forward_pure _
  · exact forward_readInManner _ _

theorem forward_readChunk (first : UInt8) : Forward (readChunk first) := by
  apply forward_ite (Parser.forward_unexpected _ _)
  apply forward_ite
  · exact (Ladder.forward_readIndex _ _).bind fun _ => forward_pure _
  · exact forward_readInManner _ _

end Representation

namespace NameRepresentation

theorem forward_readPart (isPresent : Bool) : Forward (readPart isPresent) :=
  forward_ite (Representation.forward_readIdentifying.map _) (forward_pure _)

theorem forward_readOptionalParts (first : UInt8) : Forward (readOptionalParts first) := by
  apply forward_ite (forward_throw _)
  exact (forward_readPart _).bind fun _ => (forward_readPart _).bind fun _ => forward_pure _

theorem forward_readParts (first : UInt8) : Forward (readParts first) :=
  (forward_readOptionalParts _).bind fun _ =>
    Representation.forward_readIdentifying.bind fun _ => forward_pure _

theorem forward_readElement (first : UInt8) : Forward (readElement first) := by
  apply forward_ite
  · exact (Ladder.forward_readIndex _ _).bind fun _ => forward_pure _
  · exact forward_ite (forward_readParts _) (Parser.forward_unexpected _ _)

theorem forward_readAttribute (first : UInt8) : Forward (readAttribute first) := by
  apply forward_ite (forward_readParts _)
  apply forward_ite
  · exact (Ladder.forward_readIndex _ _).bind fun _ => forward_pure _
  · exact Parser.forward_unexpected _ _

end NameRepresentation

theorem NamespaceAttribute.forward_read (first : UInt8) : Forward (read first) :=
  forward_ite (Parser.forward_unexpected _ _)
    ((NameRepresentation.forward_readOptionalParts _).bind fun _ => forward_pure _)

/-! ## Steps of a decoder -/

namespace Reading

variable {α : Type}

theorem forward_ofParser {p : Parser α} (h : Forward p) : Forward (ofParser p) := by
  intro i
  have moved := h i
  unfold ofParser
  cases read : p i with
  | ok | error =>
      rw [read] at moved
      exact moved

theorem forward_ofExcept (r : Except CodecError α) : Forward (ofExcept r) := by
  cases r with
  | ok a => exact forward_pure a
  | error cause => exact forward_throw cause

theorem forward_unexpected (first : UInt8) (context : String) :
    Forward (ofParser (Parser.unexpected first context : Parser α)) :=
  forward_ofParser (Parser.forward_unexpected _ _)

theorem forward_nonIdentifying : Forward (ofParser Representation.readNonIdentifying) :=
  forward_ofParser Representation.forward_readNonIdentifying

end Reading

namespace Decoder

open Reading

section Steps

variable (c : Codec) (v : Vocabulary) (depth : Nat) (first : UInt8)

theorem forward_readName (attributed : Bool) (declarations : List NamespaceDeclaration) :
    Forward (readName v depth attributed declarations first) := by
  apply (forward_ofParser (NameRepresentation.forward_readElement first)).bind
  intro representation
  apply (forward_ofExcept _).bind
  intro named
  exact forward_ite (forward_pure _) (forward_pure _)

theorem forward_readComment : Forward (readComment c v depth) :=
  forward_nonIdentifying.bind fun _ => (forward_ofExcept _).bind fun _ => forward_pure _

theorem forward_readInstruction : Forward (readInstruction c v depth) :=
  (forward_ofParser Representation.forward_readIdentifying).bind fun _ =>
    (forward_ofExcept _).bind fun _ =>
      forward_nonIdentifying.bind fun _ => (forward_ofExcept _).bind fun _ => forward_pure _

theorem forward_readCharacters : Forward (readCharacters c v depth first) :=
  (forward_ofParser (Representation.forward_readChunk first)).bind fun _ =>
    (forward_ofExcept _).bind fun _ => forward_pure _

theorem forward_readItem : Forward (readItem c v depth first) := by
  unfold readItem
  split
  · exact forward_pure _
  split
  · cases depth with
    | zero => exact forward_unexpected _ _
    | succ depth => exact forward_pure _
  split
  · exact forward_readInstruction c v depth
  split
  · exact forward_readComment c v depth
  split
  · exact forward_ite (forward_pure _) (forward_readName _ _ _ _ _)
  split
  · exact forward_readCharacters c v depth first
  · exact forward_unexpected _ _

theorem forward_readDeclaration (attributed : Bool) (declared : List NamespaceDeclaration) :
    Forward (readDeclaration v depth attributed declared first) := by
  apply forward_ite
  · apply (forward_ofParser Parser.forward_octet).bind
    intro octet
    exact forward_ite (forward_unexpected _ _) (forward_readName _ _ _ _ _)
  · exact (forward_ofParser (NamespaceAttribute.forward_read first)).bind fun _ =>
      (forward_ofExcept _).bind fun _ => forward_pure _

theorem forward_readAttribute (tag : Tag) : Forward (readAttribute c v depth tag first) := by
  apply forward_ite (forward_pure _)
  apply forward_ite (forward_pure _)
  exact (forward_ofParser (NameRepresentation.forward_readAttribute first)).bind fun _ =>
    (forward_ofExcept _).bind fun _ =>
      forward_nonIdentifying.bind fun _ => (forward_ofExcept _).bind fun _ => forward_pure _

theorem forward_readAfter (s : State) : Forward (readAfter c s first) := by
  obtain ⟨v, depth, phase⟩ := s
  cases phase with
  | children => exact forward_readItem c v depth first
  | declarations attributed declared =>
      exact forward_readDeclaration v depth first attributed declared
  | attributes tag => exact forward_readAttribute c v depth first tag
  | ended => exact forward_pure _

theorem forward_step (s : State) : Forward (step c s) :=
  (forward_ofParser Parser.forward_octet).bind fun first => forward_readAfter c first s

/-- A step that finds an octet takes it, whatever becomes of the step. -/
theorem offset_lt_left_step (s : State) {i : Input} (more : i.rest ≠ []) :
    i.offset < (left (step c s i)).offset := by
  obtain ⟨rest, offset⟩ := i
  cases rest with
  | nil => exact absurd rfl more
  | cons first rest =>
      have taken : ofParser Parser.octet ⟨first :: rest, offset⟩ = .ok first ⟨rest, offset + 1⟩ :=
        rfl
      have goesOn : step c s ⟨first :: rest, offset⟩ = readAfter c s first ⟨rest, offset + 1⟩ :=
        bind_of_ok taken
      rw [goesOn]
      exact (forward_readAfter c first s ⟨rest, offset + 1⟩).offset_le

/-- A step that finds no octet tells where they ended, and stays there. -/
theorem step_of_nil (s : State) {i : Input} (none : i.rest = []) :
    step c s i = .error (.format (.unexpectedEnd i.offset)) i := by
  obtain ⟨rest, offset⟩ := i
  subst none
  rfl

end Steps

variable {c : Codec}

theorem length_le_two_of_moves {s : State} {r : List Event × State} (h : Moves c s r) :
    r.1.length ≤ 2 := by
  cases h <;> simp

/-! ## The course of decoding -/

/-- At some point in a document a decoder has completed `events`, and is in some state before some
of the octets. -/
inductive Visits (c : Codec) (document : Octets) : List Event → State → Input → Prop
  | begun {header : DocumentHeader} {v : Vocabulary} {i : Input}
      (read : readHeader c ⟨document, 0⟩ = .ok (header, v) i) :
    Visits c document [.startDocument header] { vocabulary := v } i
  | stepped {events completed : List Event} {s s' : State} {i i' : Input}
      (earlier : Visits c document events s i) (going : s.phase ≠ .ended)
      (ok : step c s i = .ok (completed, s') i') :
    Visits c document (events ++ completed) s' i'

/-- The octets that were read are those of a header and enough for the events. -/
structure Affords (document : Octets) (events : List Event) (i : Input) : Prop where
  follows : i.Follows ⟨document, 0⟩
  header : 5 ≤ i.offset
  count : events.length ≤ 1 + 2 * (i.offset - 5)

/-- The identification and the flags of a header take five octets. -/
theorem length_of_read {i i' : Input} {components : Components}
    (h : Components.read i = .ok components i') : 5 ≤ i.rest.length := by
  obtain ⟨found, j, sliced, h⟩ := bind_eq_ok h
  unfold Parser.slice at sliced
  dsimp only at sliced
  split at sliced
  case isFalse => cases sliced
  next enough =>
    cases sliced
    split at h
    · cases h
    · obtain ⟨flags, k, octet, -⟩ := bind_eq_ok h
      have left := Parser.rest_length_lt_of_octet octet
      rw [List.length_take] at enough
      have four : identification.length = 4 := rfl
      simp only [List.length_drop] at left
      omega

theorem affords_header {document : Octets} {header : DocumentHeader} {v : Vocabulary} {i : Input}
    (h : readHeader c ⟨document, 0⟩ = .ok (header, v) i) :
    Affords document [.startDocument header] i := by
  obtain ⟨taken, split, delimits⟩ := selfDelimiting_readHeader c _ _ _ h
  dsimp only at split
  have whole := delimits.yields.ok i.rest 0
  rw [← split, h] at whole
  obtain ⟨rest, offset⟩ := i
  cases whole
  subst split
  -- The header could be read with nothing behind it, so its five octets are among those taken.
  obtain ⟨components, j, read, -⟩ := bind_eq_ok (delimits.yields.ok [] 0)
  have five := length_of_read (Reading.eq_ok_of_ofParser read)
  rw [List.append_nil] at five
  exact ⟨⟨List.suffix_append _ _, by simp [Input.total]⟩, by simpa using five, by simp⟩

theorem Affords.step {document : Octets} {events completed : List Event} {s s' : State}
    {i i' : Input} (h : Affords document events i) (ok : step c s i = .ok (completed, s') i') :
    Affords document (events ++ completed) i' := by
  have follows : i'.Follows i := by
    have moved := forward_step c s i
    rw [ok] at moved
    exact moved
  have advanced := follows.offset_lt (rest_length_lt_of_step ok)
  have atMostTwo : completed.length ≤ 2 := length_le_two_of_moves (moves_of_step i _ i' ok)
  have enough := h.header
  have count := h.count
  refine ⟨follows.trans h.follows, by omega, ?_⟩
  rw [List.length_append]
  omega

theorem Visits.affords {document : Octets} {events : List Event} {s : State} {i : Input}
    (h : Visits c document events s i) : Affords document events i := by
  induction h with
  | begun read => exact affords_header read
  | stepped earlier going ok ih => exact ih.step ok

theorem visits_of_run {document : Octets} {s : State} {before after : Array Event} {i : Input}
    {rest : Octets} (h : run c s before i = .ok (after, rest)) (going : s.phase ≠ .ended)
    (visits : Visits c document before.toList s i) :
    ∃ s' i', Visits c document after.toList s' i' ∧ s'.phase = .ended ∧ i'.rest = rest := by
  fun_induction run c s before i with
  | case1 => cases h
  | case2 s before i completed s' i' ok ended =>
      cases h
      refine ⟨s', i', ?_, ended, rfl⟩
      simpa using visits.stepped going ok
  | case3 s before i completed s' i' ok goesOn ih =>
      apply ih h goesOn
      simpa using visits.stepped going ok

/-- What becomes of the next step inside of a document: it takes at least an octet, or else finds
none and fails where the document ends. Whether it succeeds or fails, it stays in the document. -/
structure Advances (c : Codec) (document : Octets) (s : State) (i : Input) : Prop where
  takes : i.rest ≠ [] → i.offset < (left (step c s i)).offset
  ends : i.rest = [] → step c s i = .error (.format (.unexpectedEnd document.length)) i
  within : (left (step c s i)).Within document

theorem Affords.advances {document : Octets} {events : List Event} {i : Input}
    (h : Affords document events i) (s : State) : Advances c document s i where
  takes := offset_lt_left_step c s
  ends none := by
    have atEnd : i.offset + i.rest.length = 0 + document.length := h.follows.total_eq
    rw [none, List.length_nil, Nat.add_zero, Nat.zero_add] at atEnd
    rw [← atEnd]
    exact step_of_nil c s none
  within := .of_follows ((forward_step c s i).trans h.follows)

end Decoder

namespace Codec

open Decoder

/-- Wherever decoding is in a document, the next step advances, and at most two events were
completed for each octet that was read behind the first five. So there are few in the end. -/
theorem advances_in_document (c : Codec) (document : Octets) :
    (∀ events s i, Visits c document events s i →
      i.Within document ∧ events.length ≤ 1 + 2 * (i.offset - 5) ∧ Advances c document s i) ∧
      ∀ events, c.decode document = .ok events →
        (∃ s i, Visits c document events s i ∧ s.phase = .ended ∧ i.rest = []) ∧
          5 ≤ document.length ∧ events.length ≤ 1 + 2 * (document.length - 5) := by
  refine ⟨?_, ?_⟩
  · intro events s i visits
    have affords := visits.affords
    exact ⟨.of_follows affords.follows, affords.count, affords.advances s⟩
  · intro events decoded
    obtain ⟨header, v, i, after, read, ran, rfl⟩ := decode_eq_ok decoded
    obtain ⟨s', i', visits, ended, none⟩ := visits_of_run ran nofun (.begun read)
    have affords := visits.affords
    have within := (Input.Within.of_follows affords.follows).offset_le
    have enough := affords.header
    have count := affords.count
    exact ⟨⟨s', i', visits, ended, none⟩, by omega, by omega⟩

/-- Behind a header, in a document that goes on and in one that is cut there. -/
theorem advances_in_document_oneElement :
    (∃ i, Visits {} [0xE0, 0x00, 0x00, 0x01, 0x00, 0x3C, 0x00, 0x61, 0xFF] [.startDocument {}]
        { vocabulary := .standard } i ∧
      i.offset < (left (step {} { vocabulary := .standard } i)).offset) ∧
    (∃ i, Visits {} [0xE0, 0x00, 0x00, 0x01, 0x00] [.startDocument {}]
        { vocabulary := .standard } i ∧
      step {} { vocabulary := .standard } i = .error (.format (.unexpectedEnd 5)) i) ∧
    ({} : Codec).decode [0xE0, 0x00, 0x00, 0x01, 0x00, 0x3C, 0x00, 0x61, 0xFF] =
      .ok [.startDocument {}, .startElement { localName := "a" } [] [], .endElement,
        .endDocument] ∧
    [Event.startDocument {}, .startElement { localName := "a" } [] [], .endElement,
      .endDocument].length ≤ 1 + 2 * (9 - 5) := by
  have begun (rest : Octets) : Visits {} ([0xE0, 0x00, 0x00, 0x01, 0x00] ++ rest)
      [.startDocument {}] { vocabulary := .standard } ⟨rest, 5⟩ := .begun rfl
  have goesOn := begun [0x3C, 0x00, 0x61, 0xFF]
  have cut := begun []
  obtain ⟨-, -, advances⟩ := (advances_in_document {} _).1 _ _ _ goesOn
  obtain ⟨-, -, advances'⟩ := (advances_in_document {} _).1 _ _ _ cut
  obtain ⟨-, -, few⟩ := (advances_in_document {} _).2 _ decode_oneElement
  exact ⟨⟨_, goesOn, advances.takes nofun⟩, ⟨_, cut, advances'.ends rfl⟩,
    decode_oneElement, few⟩

end Codec

end BinaryXml
