import BinaryXml.Proofs.EmissionSuccess
import BinaryXml.Proofs.EncoderTranscript
import BinaryXml.Proofs.ProperNames

/-!
# Calls that succeed

What a call writes is made from the tables, but whether it can be made depends on the call alone:
an entry that is found has an index that can be written, and what is not found is written as it
is. So with a sink that takes everything, a call in turn succeeds if its names are proper and its
content can be packed.
-/

namespace BinaryXml

/-! ## Content -/

theorem Alphabet.pack_eq_error {a : Alphabet} {id : UInt8} {held pending : Nat} {cs : List Char}
    {cause : AlphabetError} (h : a.pack id held pending cs = .error cause) :
    ∃ c, cause = .characterNotInAlphabet id c := by
  induction cs generalizing held pending with
  | nil => cases h
  | cons c cs ih =>
      rw [pack] at h
      split at h
      · cases h
        exact ⟨c, rfl⟩
      · dsimp only at h
        cases rest : a.pack id _ _ cs with
        | ok octets =>
            rw [rest] at h
            cases h
        | error cause' =>
            rw [rest] at h
            cases h
            exact ih rest

/-- Whatever cannot be packed is written plainly. -/
theorem AlphabetRegistry.allowsPlainText_of_encode {r : AlphabetRegistry} {id : UInt8}
    {text : String} {cause : AlphabetError} (h : r.encode id text = .error cause) :
    Encoder.allowsPlainText (.alphabet cause) = true := by
  rw [encode, get] at h
  cases found : r.find? id with
  | none =>
      rw [found] at h
      cases h
      rfl
  | some a =>
      rw [found] at h
      obtain ⟨c, rfl⟩ := Alphabet.pack_eq_error h
      rfl

theorem AlphabetRegistry.ne_nil_of_encode {r : AlphabetRegistry} {id : UInt8} {text : String}
    {octets : Octets} (h : r.encode id text = .ok octets) (filled : text ≠ "") : octets ≠ [] := by
  obtain ⟨a, -, packed⟩ := exists_of_bind h
  rintro rfl
  have read := a.decode_of_encode packed
  -- Nothing is unpacked from no octets.
  have narrow : ¬a.width ≤ 0 := Nat.not_succ_le_zero _
  rw [Alphabet.decode, Alphabet.unpack, if_neg narrow] at read
  injection read with same
  exact filled same.symm

namespace Content

/-- Neither the characters nor the octets that they are packed into are too many. -/
def IsLimited (c : Codec) : Content → Prop
  | text characters => IsShort characters
  | restricted id characters =>
    IsShort characters ∧
      ∀ octets, c.alphabets.encode id characters = .ok octets → octets.length ≤ stringLimit
  | typed id value =>
    ∀ octets, c.algorithms.encode id value = .ok octets → octets.length ≤ stringLimit
  | undecoded _ _ octets => octets.length ≤ stringLimit

/-- Values have to be packed, and octets that were not unpacked be there. Text can always be
written. -/
def IsEncodable (c : Codec) : Content → Prop
  | typed id value => ∃ octets, c.algorithms.encode id value = .ok octets
  | undecoded _ _ octets => octets ≠ []
  | _ => True

structure IsAcceptable (c : Codec) (content : Content) : Prop where
  encodable : content.IsEncodable c
  limited : content.IsLimited c

/-- No text over an alphabet that cannot pack it. -/
def Packs (c : Codec) : Content → Prop
  | restricted id characters =>
    characters = "" ∨ ∃ octets, c.alphabets.encode id characters = .ok octets
  | _ => True

end Content

namespace Tables

variable {c : Codec} (t : Tables) (kind : StringKind) {value : String} {content : Content}

theorem lt_indexLimit_of_wireIndex? {tableKind : TableKind} {α : Type} [DecidableEq α]
    [Hashable α] {table : Table tableKind α} {v : α} {index : Nat}
    (h : table.wireIndex? v = some index) : index < indexLimit := by
  obtain ⟨-, below⟩ := Option.filter_eq_some_iff.1 h
  exact of_decide_eq_true below

theorem succeeds_emitIdentifying (filled : value ≠ "") (short : IsShort value) :
    (t.identifying kind value).emitIdentifying.Succeeds := by
  unfold identifying
  split
  · next found =>
      exact Ladder.succeeds_emitIndex Ladder.cover_indexOnSecondBit
        (lt_indexLimit_of_wireIndex? found) _
  · exact Representation.Form.identifying.succeeds_emitString
      (CharacterEncoding.utf8.encode_ne_nil filled)
      (CharacterEncoding.utf8.length_encode_lt short) _

theorem isWritable_nonIdentifying (c : Codec) (short : IsShort value) :
    (t.nonIdentifying c kind value).IsWritable := by
  unfold nonIdentifying
  dsimp only
  split
  · next found => exact lt_indexLimit_of_wireIndex? found
  · exact short

variable {t kind} in
theorem eq_of_nonIdentifying {v : String} {add : Bool}
    (h : t.nonIdentifying c kind value = .literal v add) : v = value := by
  unfold nonIdentifying at h
  dsimp only at h
  split at h <;> cases h
  rfl

/-- Acceptable content has a representation, unless there is nothing of it. -/
theorem represent?_of_isAcceptable (acceptable : content.IsAcceptable c)
    (packs : content.Packs c) :
    ∃ r?, t.represent? c kind content = .ok r? ∧
      ∀ r ∈ r?, r.IsWritable ∧ ∀ value add, r = .literal value add → value ≠ "" := by
  cases content with
  | text characters =>
      refine ⟨_, rfl, fun r given => ?_⟩
      split at given
      · cases given
      · next filled =>
          cases given
          refine ⟨t.isWritable_nonIdentifying kind c acceptable.limited, ?_⟩
          intro value add same none
          rw [eq_of_nonIdentifying same] at none
          exact filled (String.isEmpty_iff.2 none)
  | restricted id characters =>
      obtain ⟨-, bound⟩ := acceptable.limited
      rw [represent?]
      rcases packs with rfl | ⟨octets, encoded⟩
      · refine ⟨none, rfl, fun r given => ?_⟩
        cases given
      · rw [encoded]
        split
        · refine ⟨none, rfl, fun r given => ?_⟩
          cases given
        · next filled =>
            refine ⟨_, rfl, fun r given => ?_⟩
            cases given
            have packed := AlphabetRegistry.ne_nil_of_encode encoded
              fun none => filled (String.isEmpty_iff.2 none)
            refine ⟨⟨packed, bound octets encoded⟩, ?_⟩
            intro value add same
            cases same
  | typed id value =>
      obtain ⟨octets, encoded⟩ := acceptable.encodable
      rw [represent?, encoded]
      refine ⟨_, rfl, fun r given => ?_⟩
      split at given
      · cases given
      · next filled =>
          cases given
          refine ⟨⟨by simpa using filled, acceptable.limited octets encoded⟩, ?_⟩
          intro value add same
          cases same
  | undecoded packing id octets =>
      refine ⟨_, rfl, fun r given => ?_⟩
      cases given
      refine ⟨⟨acceptable.encodable, acceptable.limited⟩, ?_⟩
      intro value add same
      cases same

end Tables

/-! ## Names -/

structure QualifiedName.IsLimited (name : QualifiedName) : Prop where
  nsPrefix_short : IsShort name.nsPrefix
  namespaceName_short : IsShort name.namespaceName
  localName_short : IsShort name.localName

/-- The name is proper, and its parts are not too long. -/
structure QualifiedName.IsWritable (name : QualifiedName) : Prop extends name.IsLimited where
  proper : name.IsProper

structure NamespaceDeclaration.IsLimited (d : NamespaceDeclaration) : Prop where
  nsPrefix_short : IsShort d.nsPrefix
  namespaceName_short : IsShort d.namespaceName

structure NamespaceDeclaration.IsWritable (d : NamespaceDeclaration) : Prop
    extends d.IsLimited where
  proper : d.IsProper

/-! ## Items -/

namespace Item

variable {c : Codec} {t : Tables}

theorem exists_ofEmission {e : Emission} (h : e.Succeeds) (entries : List Entry) :
    ∃ item, ofEmission e entries = .ok item := by
  rw [ofEmission, h.toExcept_eq_ok]
  exact ⟨_, rfl⟩

/-- A part that is not empty is written. -/
theorem succeeds_of_mem_part {kind : StringKind} {value : String} {isPresent : Bool}
    (present : isPresent = true → value ≠ "") (short : IsShort value) :
    ∀ part ∈ (if isPresent then some (t.identifying kind value) else none),
      part.emitIdentifying.Succeeds := by
  intro part mem
  cases isPresent with
  | false => cases mem
  | true =>
      cases mem
      exact t.succeeds_emitIdentifying kind (present rfl) short

theorem succeeds_emitTables {uri? : Option String}
    (named : ∀ uri ∈ uri?, uri ≠ "" ∧ IsShort uri) : (emitTables uri?).Succeeds := by
  cases uri? with
  | none => exact Emission.succeeds_done _
  | some uri =>
      obtain ⟨filled, short⟩ := named uri rfl
      apply (Emission.succeeds_done _).append
      exact Representation.Form.identifying.succeeds_emitString
        (CharacterEncoding.utf8.encode_ne_nil filled)
        (CharacterEncoding.utf8.length_encode_lt short) _

/-- Whether a header is written depends on the name of the vocabulary alone. -/
theorem exists_emission_ofHeader {header : DocumentHeader}
    (version : ∀ text ∈ header.version, IsShort text) :
    ∃ e entries, ofHeader c t header = ofEmission e entries ∧
      e.failure? = (emitTables c.initialUri?).failure? := by
  have standalone : (emitStandalone header.standalone).failure? = none := by
    cases header.standalone <;> rfl
  refine ⟨_, _, rfl, ?_⟩
  rw [Emission.failure?_append, Emission.failure?_append, Emission.failure?_append, standalone,
    Option.or_none]
  cases given : header.version with
  | none => exact Option.or_none
  | some text =>
      have written := Representation.succeeds_emitNonIdentifying c.config.characterEncoding
        (t.isWritable_nonIdentifying .otherString c (version text given))
      exact (congrArg (Option.or _) written).trans Option.or_none

theorem exists_ofHeader {header : DocumentHeader}
    (named : ∀ uri ∈ c.initialUri?, uri ≠ "" ∧ IsShort uri)
    (version : ∀ text ∈ header.version, IsShort text) :
    ∃ item, ofHeader c t header = .ok item := by
  obtain ⟨e, entries, same, failure⟩ := exists_emission_ofHeader (c := c) (t := t) version
  rw [same]
  exact exists_ofEmission (failure.trans (succeeds_emitTables named)) entries

theorem exists_ofNameIndex (kind : NameKind) {index : Nat} (below : index < indexLimit) :
    ∃ item, ofNameIndex kind index = .ok item := by
  apply exists_ofEmission
  cases kind with
  | element => exact Ladder.succeeds_emitIndex Ladder.cover_indexOnThirdBit below _
  | _ => exact Ladder.succeeds_emitIndex Ladder.cover_indexOnSecondBit below _

theorem exists_ofName {kind : NameKind} {name : QualifiedName} (h : name.IsWritable) :
    ∃ item, ofName t kind (.named name) = .ok item := by
  rw [ofName]
  split
  · next index found => exact exists_ofNameIndex kind (Tables.lt_indexLimit_of_wireIndex? found)
  · apply exists_ofEmission
    have parts (fixed : UInt8) : (NameRepresentation.emitParts fixed
        (if name.hasPrefix then some (t.identifying .nsPrefix name.nsPrefix) else none)
        (if name.hasNamespace then some (t.identifying .namespaceName name.namespaceName) else none)
        (some (t.identifying .localName name.localName))).Succeeds := by
      refine (NameRepresentation.succeeds_emitParts_iff _).2 ⟨?_, ?_, ?_, ?_⟩
      · intro prefixed
        have prefixed : name.hasPrefix = true := by simpa using prefixed
        have bound := h.proper.namespaceName_ne (by simpa [QualifiedName.hasPrefix] using prefixed)
        simp [QualifiedName.hasNamespace, bound]
      · exact succeeds_of_mem_part (by simp [QualifiedName.hasPrefix]) h.nsPrefix_short
      · exact succeeds_of_mem_part (by simp [QualifiedName.hasNamespace]) h.namespaceName_short
      · intro part given
        cases given
        exact t.succeeds_emitIdentifying _ h.proper.localName_ne h.localName_short
    cases kind <;> exact parts _

theorem exists_ofDeclaration {d : NamespaceDeclaration} (h : d.IsWritable) :
    ∃ item, ofDeclaration t d.nsPrefix d.namespaceName = .ok item := by
  rw [ofDeclaration, part_of_isEmpty, part_of_isEmpty]
  apply exists_ofEmission
  refine (NameRepresentation.succeeds_emitParts_iff _).2 ⟨?_, ?_, ?_, ?_⟩
  · intro prefixed
    have bound := h.proper (by simpa using prefixed)
    simp [bound]
  · exact succeeds_of_mem_part (by simp) h.nsPrefix_short
  · exact succeeds_of_mem_part (by simp) h.namespaceName_short
  · exact nofun

theorem exists_ofValue {value : Content} (acceptable : value.IsAcceptable c)
    (packs : value.Packs c) : ∃ item, ofValue c t value = .ok item := by
  obtain ⟨r?, represented, writable⟩ :=
    t.represent?_of_isAcceptable .attributeValue acceptable packs
  rw [ofValue, represented]
  apply exists_ofEmission
  apply Representation.succeeds_emitNonIdentifying
  cases r? with
  | none => exact t.isWritable_nonIdentifying _ c (by decide)
  | some r => exact (writable r rfl).1

theorem exists_ofCharacters? {content : Content} (acceptable : content.IsAcceptable c)
    (packs : content.Packs c) : ∃ item?, ofCharacters? c t content = .ok item? := by
  obtain ⟨r?, represented, writable⟩ :=
    t.represent?_of_isAcceptable .characterChunk acceptable packs
  rw [ofCharacters?, represented]
  cases r? with
  | none => exact ⟨none, rfl⟩
  | some r =>
      obtain ⟨limits, filled⟩ := writable r rfl
      obtain ⟨item, made⟩ := exists_ofEmission
        (Representation.succeeds_emitChunk c.config.characterEncoding limits filled)
        [.string .characterChunk r]
      refine ⟨some item, ?_⟩
      change (some <$> ofEmission _ _) = _
      rw [made]
      rfl

theorem exists_ofComment {text : String} (short : IsShort text) :
    ∃ item, ofComment c t text = .ok item := by
  apply exists_ofEmission
  apply (Emission.succeeds_done _).append
  exact Representation.succeeds_emitNonIdentifying _ (t.isWritable_nonIdentifying _ c short)

theorem exists_ofInstruction {target data : String} (filled : target ≠ "")
    (target_short : IsShort target) (data_short : IsShort data) :
    ∃ item, ofInstruction c t target data = .ok item := by
  apply exists_ofEmission
  apply ((Emission.succeeds_done _).append
    (t.succeeds_emitIdentifying _ filled target_short)).append
  exact Representation.succeeds_emitNonIdentifying _ (t.isWritable_nonIdentifying _ c data_short)

end Item

/-! ## Calls -/

namespace Call

variable {c : Codec} {content : Content}

/-- Whatever the tables are, the call can make what it writes. -/
def IsMakeable (c : Codec) (call : Call) : Prop :=
  ∀ t : Tables, ∃ item?, call.item? c t = .ok item?

theorem exists_map_some {made : Except CodecError Item} (h : ∃ item, made = .ok item) :
    ∃ item?, made.map some = .ok item? := by
  obtain ⟨item, rfl⟩ := h
  exact ⟨some item, rfl⟩

theorem isMakeable_startDocument {header : DocumentHeader}
    (named : ∀ uri ∈ c.initialUri?, uri ≠ "" ∧ IsShort uri)
    (version : ∀ text ∈ header.version, IsShort text) : (startDocument header).IsMakeable c :=
  fun _ => exists_map_some (Item.exists_ofHeader named version)

theorem isMakeable_declare {d : NamespaceDeclaration} (h : d.IsWritable) :
    (declare d.nsPrefix d.namespaceName).IsMakeable c :=
  fun _ => exists_map_some (Item.exists_ofDeclaration h)

theorem isMakeable_elementName {name : QualifiedName} (h : name.IsWritable) :
    (elementName (.named name)).IsMakeable c :=
  fun _ => exists_map_some (Item.exists_ofName h)

theorem isMakeable_attributeName {name : QualifiedName} (h : name.IsWritable) :
    (attributeName (.named name)).IsMakeable c :=
  fun _ => exists_map_some (Item.exists_ofName h)

theorem isMakeable_attributeValue (acceptable : content.IsAcceptable c) (packs : content.Packs c) :
    (attributeValue content).IsMakeable c :=
  fun _ => exists_map_some (Item.exists_ofValue acceptable packs)

theorem isMakeable_characters (acceptable : content.IsAcceptable c) (packs : content.Packs c) :
    (characters content).IsMakeable c :=
  fun _ => Item.exists_ofCharacters? acceptable packs

theorem isMakeable_comment {text : String} (short : IsShort text) :
    (comment text).IsMakeable c :=
  fun _ => exists_map_some (Item.exists_ofComment short)

theorem isMakeable_instruction {target data : String} (filled : target ≠ "")
    (target_short : IsShort target) (data_short : IsShort data) :
    (instruction target data).IsMakeable c :=
  fun _ => exists_map_some (Item.exists_ofInstruction filled target_short data_short)

end Call

namespace Writer

variable {c : Codec} {call : Call} {w w' : Writer} {cause : CodecError}

theorem perform_of_error (active : w.stage ≠ .poisoned)
    (allowed : call.isAllowed w.stage w.depth = true) (h : carryOut c call w = .error cause w') :
    perform c call w = .error cause w' := by
  unfold perform
  rw [if_neg active, if_pos allowed]
  exact bind_of_error h

variable {id : UInt8} {characters : String} {refusal : AlphabetError}

/-- Text that its alphabet cannot pack is refused as content and as a value alike. -/
theorem carryOut_of_unpacked (filled : characters ≠ "")
    (refused : c.alphabets.encode id characters = .error refusal) (w : Writer) :
    carryOut c (.attributeValue (.restricted id characters)) w = .error (.alphabet refusal) w ∧
      carryOut c (.characters (.restricted id characters)) w = .error (.alphabet refusal) w := by
  have represented (kind : StringKind) :
      w.tables.represent? c kind (.restricted id characters) = .error (.alphabet refusal) := by
    rw [Tables.represent?, if_neg (fun none => filled (String.isEmpty_iff.1 none)), refused]
  have value : Item.ofValue c w.tables (.restricted id characters) =
      .error (.alphabet refusal) := by
    rw [Item.ofValue, represented]
    rfl
  have content : Item.ofCharacters? c w.tables (.restricted id characters) =
      .error (.alphabet refusal) := by
    rw [Item.ofCharacters?, represented]
    rfl
  refine ⟨?_, ?_⟩
  · simp only [carryOut, writeNew, value]
  · simp only [carryOut, content]

end Writer

end BinaryXml
