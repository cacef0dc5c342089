import BinaryXml.Proofs.ItemRoundTrip

/-!
# Reading back headers

A document names the vocabulary that its codec starts from, and the codec knows that vocabulary by
its name. So the reader starts from the tables that the writer started from, and reads the version
with these.
-/

namespace BinaryXml

namespace Codec

variable (c : Codec)

/-- Nothing is reserved in the tables that a document starts from. -/
theorem settled_startingVocabulary : c.startingVocabulary.settled = c.startingVocabulary := by
  unfold startingVocabulary Vocabulary.forDocument
  split
  · next shared _ => rw [← shared.reset_eq]; rfl
  · rfl

/-- The tables of a codec go by the name that its documents give. -/
theorem startingVocabulary_cases :
    (c.initialUri? = none ∧ c.startingVocabulary = .standard) ∨
      ∃ uri shared, c.initialUri? = some uri ∧ c.external uri = .ok shared ∧
        c.startingVocabulary = shared.vocabulary := by
  unfold initialUri? startingVocabulary
  cases found : c.initial? with
  | none => exact .inl ⟨rfl, rfl⟩
  | some shared =>
      obtain ⟨uri, known, provided⟩ := c.initial_named shared found
      exact .inr ⟨uri, shared, known, by rw [external, provided], rfl⟩

end Codec

namespace Decoder

variable {c : Codec} {t : Tables}

theorem yields_readVocabularyUri {uri : String} {octets : Octets}
    (h : (lengthOnSecondBit.emitString 0x00 (Utf8.encode uri)).toExcept = .ok octets) :
    Yields readVocabularyUri (Mark.externalVocabulary :: 0x00 :: octets) uri := by
  obtain ⟨first, tail, rfl, opens, read⟩ :=
    Ladder.yields_of_emitString Ladder.sound_lengthOnSecondBit (by decide) h
  have kept : first.toNat / 128 = 0 := opens.fixed_eq
  refine (Parser.yields_octet Mark.externalVocabulary).bind.trans
    ((Parser.yields_octet 0x00).bind.trans ?_)
  rw [if_neg (by decide)]
  refine (Parser.yields_octet first).bind.trans ?_
  rw [if_neg (by omega)]
  exact read.bind.done (Parser.yields_text (CharacterEncoding.decode_encode .utf8 uri))

theorem yields_readStandalone (standalone : Bool) :
    Yields readStandalone [flagBit standalone 0x01] standalone := by
  refine (Parser.yields_octet _).bind.done ?_
  cases standalone <;> exact yields_pure _

theorem yields_readTables {octets : Octets}
    (h : (Item.emitTables c.initialUri?).toExcept = .ok octets) :
    Yields (readTables c c.initialUri?.isSome) octets (c.initialUri?, c.startingVocabulary) := by
  rcases c.startingVocabulary_cases with ⟨unnamed, tables⟩ | ⟨uri, shared, known, found, tables⟩
  · rw [unnamed] at h ⊢
    rw [tables]
    cases h
    exact yields_pure _
  · rw [known] at h ⊢
    rw [tables]
    obtain ⟨marks, name, hmarks, hname, rfl⟩ := Emission.toExcept_append_eq_ok.1 h
    cases hmarks
    refine (Reading.yields_ofParser (yields_readVocabularyUri hname)).bind.done ?_
    rw [found]
    exact yields_pure _

theorem yields_readStandalone? {standalone : Option Bool} {octets : Octets}
    (h : (Item.emitStandalone standalone).toExcept = .ok octets) :
    Yields (readStandalone? standalone.isSome) octets standalone := by
  cases standalone with
  | none =>
      cases h
      exact yields_pure _
  | some standalone =>
      cases h
      exact (yields_readStandalone standalone).map some

theorem yields_readHeader {header : DocumentHeader} {item : Item}
    (h : Item.ofHeader c t header = .ok item) (fresh : item.IsFresh t)
    (start : t.vocabulary.settled = c.startingVocabulary) :
    Yields (readHeader c) item.octets
      ({ header with externalVocabulary := c.initialUri? },
        (item.enterInto t).vocabulary.settled) := by
  obtain ⟨emitted, entries⟩ := Item.ofEmission_eq_ok h
  obtain ⟨front, versionOctets, hfront, hversion, split⟩ :=
    Emission.toExcept_append_eq_ok.1 emitted
  obtain ⟨start', standaloneOctets, hstart, hstandalone, rfl⟩ :=
    Emission.toExcept_append_eq_ok.1 hfront
  obtain ⟨preamble, tableOctets, hpreamble, htables, rfl⟩ :=
    Emission.toExcept_append_eq_ok.1 hstart
  cases hpreamble
  rw [split, List.append_assoc, List.append_assoc]
  refine (Reading.yields_ofParser (Components.yields_read _)).bind.yields ?_
  refine (yields_readTables htables).bind.yields ?_
  refine (Reading.yields_ofParser (yields_readStandalone? hstandalone)).bind.yields ?_
  obtain ⟨externalVocabulary, standalone, version⟩ := header
  cases version with
  | none =>
      cases hversion
      rw [Item.enterInto, entries]
      change Yields (pure _) [] _
      rw [← start]
      exact yields_pure _
  | some version =>
      have read := Representation.yields_readNonIdentifying hversion
      rw [Tables.asNonIdentifying_nonIdentifying] at read
      have resolved := Tables.resolveText_nonIdentifying (fresh.single entries)
      rw [start] at resolved
      rw [Item.enterInto_single entries]
      refine (Reading.yields_ofParser read).bind.done ?_
      exact (Reading.yields_ofExcept resolved).bind.done (yields_pure _)

end Decoder

end BinaryXml
