import BinaryXml.Proofs.EncoderTranscript

/-!
# Reading back documents

A document that was encoded is decoded to the normal form of its events.
-/

namespace BinaryXml

namespace Codec

variable {c : Codec} {events : List Event} {document : Octets}

theorem forM_of_encode (h : c.encode events = .ok document) :
    ∃ e e', events.forM (Encoder.write c) (c.encoder {}) = .ok () e ∧
      Encoder.finish e = .ok () e' ∧ e'.writer.sink.written.toList = document := by
  unfold encode at h
  dsimp only at h
  split at h
  · next e' encoded =>
      cases h
      obtain ⟨_, e, written, finished⟩ := bind_eq_ok encoded
      exact ⟨e, e', written, finished, rfl⟩
  · cases h

/-- Behind every document is a session that has the normal form of its events. -/
theorem session_of_encode (h : c.encode events = .ok document) :
    ∃ actions w, Writer.endDocument ((c.session {}).run c actions).writer = .ok () w ∧
      w.sink.written.toList = document ∧
      ((c.session {}).run c actions).transcript.events = c.normalisedIn [] events ∧
      ((∀ e ∈ events, e.IsReadable c) → ∀ a ∈ actions, a.IsReadable c) := by
  obtain ⟨u, e, written, finished, rfl⟩ := forM_of_encode h
  obtain ⟨ended, -⟩ := Encoder.writing_eq_ok finished
  have scopes : (c.encoder {}).scopes = .ofElements [] := rfl
  obtain ⟨t, ⟨actions, same, known⟩, noted⟩ :=
    Encoder.reaches_of_forM (t := {}) scopes (fun _ => nofun) written
  have reached : (c.session {}).run c actions = ⟨u.writer, t⟩ := same
  refine ⟨actions, e.writer, ?_, rfl, ?_, known⟩
  · rwa [reached]
  · rw [reached]
    exact noted

theorem decode_eq_received (encoded : c.encode events = .ok document) :
    c.decode document =
      ((c.normalisedIn [] events).mapM (Event.received c)).map (· ++ [.endDocument]) := by
  obtain ⟨actions, w, ended, rfl, noted, -⟩ := session_of_encode encoded
  rcases Session.isFollowed_session c {} rfl actions with poisoned | follows
  · have := (Writer.endDocument_eq_ok ended).1
    rw [poisoned] at this
    cases this
  · rw [follows.decode_eq ended, noted]

/-- Readable content is received as it was written. -/
theorem decode_of_readable (encoded : c.encode events = .ok document)
    (readable : ∀ e ∈ events, e.IsReadable c) : c.decode document = .ok (c.normalised events) := by
  obtain ⟨actions, -, -, -, noted, known⟩ := session_of_encode encoded
  rw [decode_eq_received encoded, ← noted, Session.mapM_received_session (known readable), noted]
  rfl

/-- What is decoded is what a reader receives of the normal form, and that is the normal form
itself as soon as the content is readable. -/
theorem decode_eq_normalised (c : Codec) (events : List Event) (document : Octets)
    (encoded : c.encode events = .ok document) :
    c.decode document = (c.normalised events).mapM (Event.received c) ∧
      ((∀ e ∈ events, e.IsReadable c) → c.decode document = .ok (c.normalised events)) := by
  have decoded := decode_eq_received encoded
  refine ⟨?_, decode_of_readable encoded⟩
  rw [decoded, normalised, List.mapM_append]
  cases (c.normalisedIn [] events).mapM (Event.received c) <;> rfl

theorem encode_of_forM {e e' : Encoder}
    (written : events.forM (Encoder.write c) (c.encoder {}) = .ok () e)
    (finished : Encoder.finish e = .ok () e') :
    c.encode events = .ok e'.writer.sink.written.toList := by
  have all : (events.forM (Encoder.write c) >>= fun _ => Encoder.finish) (c.encoder {}) =
      .ok () e' := by
    rw [bind_of_ok written, finished]
  simp only [encode, all]

theorem encode_of_endDocument {e : Encoder} {w : Writer}
    (written : events.forM (Encoder.write c) (c.encoder {}) = .ok () e)
    (ended : Writer.endDocument e.writer = .ok () w) :
    c.encode events = .ok w.sink.written.toList := by
  have finished : Encoder.finish e = .ok () { e with writer := w } := by
    simp only [Encoder.finish, Encoder.writing, ended]
  exact (encode_of_forM written finished :)

/-! ## A document with an element -/

/-- A codec that writes neither comments nor instructions. -/
def silentCodec : Codec :=
  { Session.oneElementCodec with config := { ignoreComments := true, ignoreInstructions := true } }

/-- A document of which less is written than its events say. -/
def silentEvents : List Event :=
  [.startDocument { externalVocabulary := some "urn:other", standalone := some true },
    .comment "dropped", .startElement { localName := "a" } [] [],
    .characters (.typed 3 (.ints [7])), .characters (.typed 3 (.ints [])), .endElement]

/-- The encoder behind the header. -/
def silentEncoder : Encoder where
  writer :=
    { tables := { vocabulary := silentCodec.startingVocabulary }
      stage := .content
      buffer := #[224, 0, 0, 1, 34, 16, 0, 6, 117, 114, 110, 58, 111, 110, 101, 1] }

/-- The writer when the element has begun. -/
def silentMark : Writer :=
  { silentEncoder.writer with stage := .marked, mark? := some 16 }

/-- The encoder inside of the element. -/
def silentInside : Encoder where
  writer := { silentEncoder.writer with depth := 1, buffer := silentEncoder.writer.buffer.push 0 }
  scopes := .ofElements [[]]

theorem wireIndex?_oneElement :
    Session.oneElement.vocabulary.elementNames.wireIndex? { localName := "a" } = some 0 :=
  Table.wireIndex?_of_base rfl (by decide)

/-- What is registered does not matter to names. -/
theorem write_silentEncoder (algorithms : AlgorithmRegistry) :
    Encoder.write { silentCodec with algorithms } (.startElement { localName := "a" } [] [])
      silentEncoder = .ok () silentInside := by
  let c : Codec := { silentCodec with algorithms }
  have parts : Encoder.writeParts c { localName := "a" } [] [] =
      Encoder.call c (.elementName (.named { localName := "a" })) := by
    simp [Encoder.writeParts]
  have written : Writer.carryOut c (.elementName (.named { localName := "a" })) silentMark =
      .ok () { silentMark with buffer := silentMark.buffer.push 0 } :=
    (Writer.carryOut_named (w := silentMark) wireIndex?_oneElement rfl).trans rfl
  have named := Encoder.call_of_perform (e := ⟨silentMark, .ofElements [[]], false⟩)
    (Writer.perform_of_carryOut nofun rfl written)
  change (Encoder.writeParts c { localName := "a" } [] [] >>=
    fun _ => Encoder.call c .endStartElement) ⟨silentMark, .ofElements [[]], false⟩ = _
  rw [parts, bind_of_ok named]
  rfl

theorem encode_silentEvents :
    silentCodec.encode silentEvents =
      .ok [224, 0, 0, 1, 34, 16, 0, 6, 117, 114, 110, 58, 111, 110, 101, 1,
        0, 140, 14, 1, 0, 0, 0, 7, 255] := by
  have started : Encoder.write silentCodec
      (.startDocument { externalVocabulary := some "urn:other", standalone := some true })
      (silentCodec.encoder {}) = .ok () silentEncoder := by rfl
  have commented : Encoder.write silentCodec (.comment "dropped") silentEncoder =
      .ok () silentEncoder := by rfl
  have opened : Encoder.write silentCodec (.startElement { localName := "a" } [] [])
      silentEncoder = .ok () silentInside := write_silentEncoder {}
  have written : silentEvents.forM (Encoder.write silentCodec) (silentCodec.encoder {}) =
      (silentEvents.drop 3).forM (Encoder.write silentCodec) silentInside := by
    rw [silentEvents, forM_of_ok started, forM_of_ok commented, forM_of_ok opened]
    rfl
  exact encode_of_forM written rfl

/-- The header names the vocabulary of the codec, and what the settings leave out is gone, as is
what carries nothing. -/
theorem decode_eq_normalised_silentCodec :
    silentCodec.encode silentEvents =
      .ok [224, 0, 0, 1, 34, 16, 0, 6, 117, 114, 110, 58, 111, 110, 101, 1,
        0, 140, 14, 1, 0, 0, 0, 7, 255] ∧
    silentCodec.decode [224, 0, 0, 1, 34, 16, 0, 6, 117, 114, 110, 58, 111, 110, 101, 1,
        0, 140, 14, 1, 0, 0, 0, 7, 255] =
      .ok [.startDocument { externalVocabulary := some "urn:one", standalone := some true },
        .startElement { localName := "a" } [] [], .characters (.typed 3 (.ints [7])),
        .endElement, .endDocument] := by
  have readable : ∀ e ∈ silentEvents, e.IsReadable silentCodec := by
    simp only [silentEvents, List.forall_mem_cons, Event.IsReadable]
    refine ⟨trivial, trivial, nofun, ?_, ?_, trivial, nofun⟩
    all_goals
      intro unknown
      cases unknown
  have read := (decode_eq_normalised _ _ _ encode_silentEvents).2 readable
  refine ⟨encode_silentEvents, ?_⟩
  rw [read]
  rfl

end Codec

end BinaryXml
