import BinaryXml.Proofs.AlgorithmRoundTrip
import BinaryXml.Proofs.AlphabetRoundTrip
import BinaryXml.Proofs.TablesInStep

/-!
# Content in step

A reader gets content back as far as its codec unpacks what it packed. `Content.received` tells
what that comes to, and `Content.IsReadable` names the content for which it is the content itself;
built-in algorithms and all alphabets never stand in the way.
-/

namespace BinaryXml

namespace Codec

/-- What comes of octets whose algorithm or alphabet is unknown. -/
def keepUnknown (c : Codec) (packing : Packing) (id : UInt8) (octets : Octets)
    (cause : CodecError) : Except CodecError Content :=
  if c.config.unknownPacking ≠ .keep then .error cause else .ok (.undecoded packing id octets)

def unpack (c : Codec) (packing : Packing) (id : UInt8) (octets : Octets) :
    Except CodecError Content :=
  match packing with
  | .algorithm =>
    match c.algorithms.find? id with
    | none => c.keepUnknown .algorithm id octets (.algorithm (.unknownAlgorithm id))
    | some algorithm =>
      match algorithm.decode octets with
      | .ok value => .ok (.typed id value)
      | .error cause => .error (.algorithm cause)
  | .alphabet =>
    match c.alphabets.find? id with
    | none => c.keepUnknown .alphabet id octets (.alphabet (.unknownAlphabet id))
    | some alphabet =>
      match alphabet.decode id octets with
      | .ok text => .ok (.restricted id text)
      | .error cause => .error (.alphabet cause)

end Codec

namespace Content

/-- What a reader with the codec of the writer makes of content that was written. -/
def received (c : Codec) : Content → Except CodecError Content
  | text characters => .ok (text characters)
  | restricted id characters => .ok (restricted id characters)
  | typed id value =>
    match c.algorithms.encode id value with
    | .ok octets => c.unpack .algorithm id octets
    | .error cause => .error (.algorithm cause)
  | undecoded packing id octets => c.unpack packing id octets

/-- Content without characters or octets. -/
def isVacuous (c : Codec) : Content → Bool
  | text characters => characters.isEmpty
  | restricted _ characters => characters.isEmpty
  | typed id value =>
    match c.algorithms.encode id value with
    | .ok octets => octets.isEmpty
    | .error _ => false
  | undecoded _ _ _ => false

/-- The form that content takes as the value of an attribute, which is always written. -/
def asValue (c : Codec) (content : Content) : Content :=
  if content.isVacuous c then .text "" else content

/-- A value of an algorithm that was registered is unpacked to itself, and octets are passed on
only where nothing is known about them and the codec keeps what it does not know. -/
def IsReadable (c : Codec) : Content → Prop
  | text _ => True
  | restricted _ _ => True
  | typed id value =>
    BuiltinAlgorithm.ofId? id = none →
      ∀ octets, c.algorithms.encode id value = .ok octets →
        c.algorithms.decode id octets = .ok value
  | undecoded .algorithm id _ =>
    c.algorithms.find? id = none ∧ c.config.unknownPacking = .keep
  | undecoded .alphabet id _ =>
    c.alphabets.find? id = none ∧ c.config.unknownPacking = .keep

theorem decode_of_isReadable {c : Codec} {id : UInt8} {value : TypedValue}
    (h : (typed id value).IsReadable c) {octets : Octets}
    (encoded : c.algorithms.encode id value = .ok octets) :
    c.algorithms.decode id octets = .ok value := by
  cases builtin : BuiltinAlgorithm.ofId? id with
  | none => exact h builtin octets encoded
  | some b =>
      have found : c.algorithms.get id = .ok b.algorithm := by
        simp [AlgorithmRegistry.get, AlgorithmRegistry.find?, builtin]
      simp only [AlgorithmRegistry.encode, AlgorithmRegistry.decode, found, bind,
        Except.bind] at encoded ⊢
      exact BuiltinAlgorithm.decode_of_encode encoded

/-- Readable content that can be written is received as it is. -/
theorem received_of_isReadable {c : Codec} {content : Content}
    (h : content.IsReadable c) (written : ∀ id value, content = typed id value →
      ∃ octets, c.algorithms.encode id value = .ok octets) :
    content.received c = .ok content := by
  cases content with
  | text characters => rfl
  | restricted id characters => rfl
  | typed id value =>
      obtain ⟨octets, encoded⟩ := written id value rfl
      have decoded := decode_of_isReadable h encoded
      rw [Content.received, encoded]
      unfold AlgorithmRegistry.decode AlgorithmRegistry.get at decoded
      cases found : c.algorithms.find? id with
      | none => rw [found] at decoded; cases decoded
      | some algorithm =>
          rw [found] at decoded
          change algorithm.decode octets = .ok value at decoded
          simp only [Codec.unpack, found, decoded]
  | undecoded packing id octets =>
      cases packing with
      | algorithm => simp [Content.received, Codec.unpack, Codec.keepUnknown, h.1, h.2]
      | alphabet => simp [Content.received, Codec.unpack, Codec.keepUnknown, h.1, h.2]

end Content

namespace Table

variable {kind : TableKind}

theorem resolveUnknown_eq (c : Codec) (t : Table kind String) (packing : Packing) (id : UInt8)
    (octets : Octets) (cause : CodecError) :
    t.resolveUnknown c packing id octets false cause =
      (c.keepUnknown packing id octets cause).map (·, t) := by
  unfold resolveUnknown Codec.keepUnknown
  split <;> rfl

/-- Nothing is entered for packed octets that do not ask for it. -/
theorem resolveContent_packed (c : Codec) (t : Table kind String) (packing : Packing) (id : UInt8)
    (octets : Octets) :
    t.resolveContent c (.packed packing id octets false) =
      (c.unpack packing id octets).map (·, t) := by
  cases packing with
  | algorithm =>
      rw [resolveContent, Codec.unpack]
      cases c.algorithms.find? id with
      | none => exact resolveUnknown_eq c t _ id octets _
      | some algorithm =>
          dsimp only
          cases algorithm.decode octets <;> rfl
  | alphabet =>
      rw [resolveContent, Codec.unpack]
      cases c.alphabets.find? id with
      | none => exact resolveUnknown_eq c t _ id octets _
      | some alphabet =>
          dsimp only
          cases alphabet.decode id octets <;> rfl

end Table

namespace Tables

variable {c : Codec} {t : Tables} {kind : StringKind}

theorem nonIdentifying_cases (c : Codec) (t : Tables) (kind : StringKind) (value : String) :
    (∃ index, t.nonIdentifying c kind value = .indexed index ∧
        (t.vocabulary.strings kind).get? index = some value) ∨
      ∃ add, t.nonIdentifying c kind value = .literal value add ∧
        (add && !value.isEmpty) = add := by
  unfold nonIdentifying
  dsimp only
  split
  · next index h =>
      exact .inl ⟨index, rfl, Table.get?_of_indexOf? (Table.indexOf?_of_wireIndex? h)⟩
  · refine .inr ⟨_, rfl, ?_⟩
    cases value.isEmpty <;> simp

theorem asNonIdentifying_nonIdentifying (c : Codec) (t : Tables) (kind : StringKind)
    (value : String) :
    (t.nonIdentifying c kind value).asNonIdentifying = t.nonIdentifying c kind value := by
  rcases nonIdentifying_cases c t kind value with ⟨index, h, -⟩ | ⟨add, h, demand⟩
  · rw [h, Representation.asNonIdentifying]
  · rw [h, Representation.asNonIdentifying, demand]

/-- A reader asked to enter a string ends up with the table in which it was entered. -/
theorem entered_of_enter {kind : TableKind} {table table' : Table kind String} {content : Content}
    {characters : String} (h : table.enter characters = .ok table') :
    Table.resolveContent.entered table content true (fun _ => .ok characters) =
      .ok (content, table') := by
  unfold Table.enter at h
  unfold Table.resolveContent.entered
  split at h
  · next full =>
      cases h
      simp [full]
  · next room =>
      cases added : table.add characters with
      | error cause => rw [added] at h; cases h
      | ok r =>
          rw [added] at h
          cases h
          simp [room, added]

theorem resolveContent_nonIdentifying {value : String}
    (fresh : t.conflict? (.string kind (t.nonIdentifying c kind value)) = none) :
    t.vocabulary.settled.resolveContent c kind (t.nonIdentifying c kind value) =
      .ok (.text value,
        (t.enter (.string kind (t.nonIdentifying c kind value))).vocabulary.settled) := by
  rw [Vocabulary.resolveContent, Vocabulary.updateStrings_eq, Vocabulary.settled_strings]
  rcases nonIdentifying_cases c t kind value with ⟨index, h, held⟩ | ⟨_ | _, h, -⟩
  · have found : (t.vocabulary.strings kind).settled.get index = .ok value :=
      Table.get_eq_ok.2 held
    rw [h]
    simp only [Table.resolveContent, found]
    rw [Except.map, ← Vocabulary.settled_strings, Vocabulary.withStrings_self]
    rfl
  · rw [h]
    simp only [Table.resolveContent, Table.resolveContent.entered, Bool.false_and,
      Bool.false_eq_true, if_false]
    rw [Except.map, ← Vocabulary.settled_strings, Vocabulary.withStrings_self]
    rfl
  · rw [h] at fresh ⊢
    have clear : (!(t.vocabulary.strings kind).isFull &&
        (t.vocabulary.strings kind).contains value) = false := by
      simpa [conflict?] using fresh
    rw [Table.resolveContent, entered_of_enter (Table.enter_settled clear),
      vocabulary_enter_literal, Vocabulary.settled_withStrings]
    rfl

theorem resolveText_nonIdentifying {value : String}
    (fresh : t.conflict? (.string kind (t.nonIdentifying c kind value)) = none) :
    t.vocabulary.settled.resolveText c kind (t.nonIdentifying c kind value) =
      .ok (value,
        (t.enter (.string kind (t.nonIdentifying c kind value))).vocabulary.settled) := by
  simp only [Vocabulary.resolveText, resolveContent_nonIdentifying fresh, bind, Except.bind,
    Content.toText]
  rfl

/-- Octets are not entered by either side. -/
theorem resolveContent_packed (packing : Packing) (id : UInt8) (octets : Octets) :
    t.vocabulary.settled.resolveContent c kind (.packed packing id octets false) =
      (c.unpack packing id octets).map
        (·, (t.enter (.string kind (.packed packing id octets false))).vocabulary.settled) := by
  rw [Vocabulary.resolveContent, Vocabulary.updateStrings_eq, Vocabulary.settled_strings,
    Table.resolveContent_packed]
  cases c.unpack packing id octets with
  | error cause => rfl
  | ok content =>
      simp only [Except.map, ← Vocabulary.settled_strings, Vocabulary.withStrings_self]
      rfl

/-- Only content without characters or octets has no representation. -/
theorem isVacuous_of_represent {content : Content} {r? : Option Representation}
    (h : t.represent? c kind content = .ok r?) : content.isVacuous c = r?.isNone := by
  cases content with
  | text characters =>
      rw [represent?] at h
      cases h
      cases blank : characters.isEmpty <;> simp [Content.isVacuous, blank]
  | restricted id characters =>
      rw [represent?] at h
      split at h
      · next blank => cases h; exact blank
      · next filled =>
          split at h <;> cases h
          simpa [Content.isVacuous] using filled
  | typed id value =>
      rw [represent?] at h
      split at h
      · next octets encoded =>
          cases h
          rw [Content.isVacuous, encoded]
          cases octets <;> rfl
      · cases h
  | undecoded packing id octets => cases h; rfl

/-- Readable content that is written is received as it is. -/
theorem received_of_represent {content : Content} {r? : Option Representation}
    (readable : content.IsReadable c) (h : t.represent? c kind content = .ok r?) :
    content.received c = .ok content := by
  refine Content.received_of_isReadable readable ?_
  rintro id value rfl
  rw [represent?] at h
  split at h
  · next octets encoded => exact ⟨octets, encoded⟩
  · cases h

theorem asNonIdentifying_of_represent {content : Content} {r : Representation}
    (h : t.represent? c kind content = .ok (some r)) : r.asNonIdentifying = r := by
  cases content with
  | text characters =>
      rw [represent?] at h
      split at h <;> cases h
      exact t.asNonIdentifying_nonIdentifying c kind characters
  | restricted id characters =>
      rw [represent?] at h
      split at h
      · cases h
      · split at h <;> cases h
        rfl
  | typed id value =>
      rw [represent?] at h
      split at h
      · next octets encoded =>
          cases blank : octets.isEmpty <;> rw [blank] at h <;> cases h
          rfl
      · cases h
  | undecoded packing id octets => cases h; rfl

theorem unpack_of_alphabet_encode {id : UInt8} {characters : String} {octets : Octets}
    (h : c.alphabets.encode id characters = .ok octets) :
    c.unpack .alphabet id octets = .ok (.restricted id characters) := by
  unfold AlphabetRegistry.encode AlphabetRegistry.get at h
  cases found : c.alphabets.find? id with
  | none => rw [found] at h; cases h
  | some alphabet =>
      rw [found] at h
      change alphabet.encode id characters = .ok octets at h
      simp only [Codec.unpack, found, alphabet.decode_of_encode h]

/-- A reader resolves the representation of content to what it receives of the content. -/
theorem resolveContent_of_represent {content : Content} {r : Representation}
    (h : t.represent? c kind content = .ok (some r))
    (fresh : t.conflict? (.string kind r) = none) :
    t.vocabulary.settled.resolveContent c kind r =
      (content.received c).map (·, (t.enter (.string kind r)).vocabulary.settled) := by
  cases content with
  | text characters =>
      rw [represent?] at h
      split at h <;> cases h
      exact resolveContent_nonIdentifying fresh
  | restricted id characters =>
      rw [represent?] at h
      split at h
      · cases h
      · split at h <;> cases h
        next octets encoded =>
          rw [resolveContent_packed, unpack_of_alphabet_encode encoded]
          rfl
  | typed id value =>
      rw [represent?] at h
      split at h
      · next octets encoded =>
          cases blank : octets.isEmpty <;> rw [blank] at h <;> cases h
          rw [resolveContent_packed, Content.received, encoded]
      · cases h
  | undecoded packing id octets =>
      cases h
      exact resolveContent_packed packing id octets

/-- The value of an attribute always has a representation. -/
theorem resolveContent_of_value {value : Content} {r? : Option Representation}
    (h : t.represent? c kind value = .ok r?) {r : Representation}
    (hr : r = r?.getD (t.nonIdentifying c kind "")) (fresh : t.conflict? (.string kind r) = none) :
    r.asNonIdentifying = r ∧
      t.vocabulary.settled.resolveContent c kind r =
        ((value.asValue c).received c).map (·, (t.enter (.string kind r)).vocabulary.settled) := by
  have vacuous := isVacuous_of_represent h
  cases r? with
  | none =>
      subst hr
      rw [Content.asValue, vacuous]
      exact ⟨t.asNonIdentifying_nonIdentifying c kind "", resolveContent_nonIdentifying fresh⟩
  | some r' =>
      cases hr
      rw [Content.asValue, vacuous]
      exact ⟨asNonIdentifying_of_represent h, resolveContent_of_represent h fresh⟩

end Tables

end BinaryXml
