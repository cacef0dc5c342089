import BinaryXml.Proofs.EncoderTranscript

/-!
# Content without its registrations

A codec may lack the algorithms and alphabets that were registered with another one. What these
packed is then octets of something unknown, which are written as they stand. Everything else about
the two codecs is the same, so the content that is left of a document in normal form has the same
representations in the same tables, and is in normal form again.
-/

namespace BinaryXml

/-- The codec with nothing registered, which passes on what it does not know. -/
def Codec.withoutRegistrations (c : Codec) : Codec :=
  { c with
    config := { c.config with unknownPacking := .keep }
    algorithms := {}
    alphabets := {} }

@[simp] theorem Codec.withoutRegistrations_algorithms (c : Codec) :
    c.withoutRegistrations.algorithms = {} := rfl

@[simp] theorem Codec.withoutRegistrations_alphabets (c : Codec) :
    c.withoutRegistrations.alphabets = {} := rfl

/-! ## Built-in algorithms and alphabets -/

theorem AlgorithmRegistry.find?_of_builtin {id : UInt8} {a : Algorithm}
    (h : ({} : AlgorithmRegistry).find? id = some a) (r : AlgorithmRegistry) :
    r.find? id = some a := by
  unfold find? at h ⊢
  cases builtin : BuiltinAlgorithm.ofId? id with
  | none =>
      rw [builtin] at h
      cases h
  | some b =>
      rw [builtin] at h
      exact h

theorem AlgorithmRegistry.encode_of_builtin {id : UInt8} {a : Algorithm}
    (h : ({} : AlgorithmRegistry).find? id = some a) (r : AlgorithmRegistry) (v : TypedValue) :
    ({} : AlgorithmRegistry).encode id v = r.encode id v := by
  rw [encode, encode, get, get, h, find?_of_builtin h r]

theorem AlphabetRegistry.find?_of_builtin {id : UInt8} {a : Alphabet}
    (h : ({} : AlphabetRegistry).find? id = some a) (r : AlphabetRegistry) :
    r.find? id = some a := by
  unfold find? at h ⊢
  by_cases numeric : id = 0
  · rw [if_pos numeric] at h ⊢
    exact h
  · rw [if_neg numeric] at h ⊢
    by_cases dateTime : id = 1
    · rw [if_pos dateTime] at h ⊢
      exact h
    · rw [if_neg dateTime] at h
      cases h

theorem AlphabetRegistry.encode_of_builtin {id : UInt8} {a : Alphabet}
    (h : ({} : AlphabetRegistry).find? id = some a) (r : AlphabetRegistry) (text : String) :
    ({} : AlphabetRegistry).encode id text = r.encode id text := by
  rw [encode, encode, get, get, h, find?_of_builtin h r]

namespace Content

/-- No octets of an unknown algorithm or alphabet. -/
def IsDecoded : Content → Prop
  | undecoded _ _ _ => False
  | _ => True

/-- What is left of content that the codec `c` can write when nothing is registered. -/
def unregistered (c : Codec) : Content → Content
  | restricted id characters =>
    match ({} : AlphabetRegistry).find? id, c.alphabets.encode id characters with
    | none, .ok octets => undecoded .alphabet id octets
    | _, _ => restricted id characters
  | typed id value =>
    match ({} : AlgorithmRegistry).find? id, c.algorithms.encode id value with
    | none, .ok octets => undecoded .algorithm id octets
    | _, _ => typed id value
  | content => content

variable {c : Codec} {content : Content}

theorem unregistered_restricted_cases (c : Codec) (id : UInt8) (characters : String) :
    (∃ a, ({} : AlphabetRegistry).find? id = some a ∧
      (restricted id characters).unregistered c = restricted id characters) ∨
    (∃ octets, ({} : AlphabetRegistry).find? id = none ∧
      c.alphabets.encode id characters = .ok octets ∧
      (restricted id characters).unregistered c = undecoded .alphabet id octets) ∨
    ∃ cause, c.alphabets.encode id characters = .error cause ∧
      (restricted id characters).unregistered c = restricted id characters := by
  cases known : ({} : AlphabetRegistry).find? id with
  | some a => exact .inl ⟨a, rfl, by simp only [unregistered, known]⟩
  | none =>
      cases encoded : c.alphabets.encode id characters with
      | ok octets =>
          exact .inr (.inl ⟨octets, rfl, rfl, by simp only [unregistered, known, encoded]⟩)
      | error cause => exact .inr (.inr ⟨cause, rfl, by simp only [unregistered, known, encoded]⟩)

theorem unregistered_typed_cases (c : Codec) (id : UInt8) (value : TypedValue) :
    (∃ a, ({} : AlgorithmRegistry).find? id = some a ∧
      (typed id value).unregistered c = typed id value) ∨
    (∃ octets, ({} : AlgorithmRegistry).find? id = none ∧
      c.algorithms.encode id value = .ok octets ∧
      (typed id value).unregistered c = undecoded .algorithm id octets) ∨
    ∃ cause, ({} : AlgorithmRegistry).find? id = none ∧
      c.algorithms.encode id value = .error cause ∧
      (typed id value).unregistered c = typed id value := by
  cases known : ({} : AlgorithmRegistry).find? id with
  | some a => exact .inl ⟨a, rfl, by simp only [unregistered, known]⟩
  | none =>
      cases encoded : c.algorithms.encode id value with
      | ok octets =>
          exact .inr (.inl ⟨octets, rfl, rfl, by simp only [unregistered, known, encoded]⟩)
      | error cause =>
          exact .inr (.inr ⟨cause, rfl, rfl, by simp only [unregistered, known, encoded]⟩)

/-! ## What a codec without registrations makes of it -/

theorem isReadable_unregistered (decoded : content.IsDecoded) :
    (content.unregistered c).IsReadable c.withoutRegistrations := by
  cases content with
  | text characters => trivial
  | restricted id characters =>
      rcases unregistered_restricted_cases c id characters with
        ⟨_, _, same⟩ | ⟨octets, unknown, _, same⟩ | ⟨_, _, same⟩
      · rw [same]
        trivial
      · rw [same]
        exact ⟨unknown, rfl⟩
      · rw [same]
        trivial
  | typed id value =>
      have vacuous : (typed id value).IsReadable c.withoutRegistrations := by
        intro other octets encoded
        have unknown : ({} : AlgorithmRegistry).find? id = none := by
          rw [AlgorithmRegistry.find?, other]
          rfl
        rw [Codec.withoutRegistrations_algorithms, AlgorithmRegistry.encode,
          AlgorithmRegistry.get, unknown] at encoded
        cases encoded
      rcases unregistered_typed_cases c id value with
        ⟨_, _, same⟩ | ⟨octets, unknown, _, same⟩ | ⟨_, _, _, same⟩
      · rwa [same]
      · rw [same]
        exact ⟨unknown, rfl⟩
      · rwa [same]
  | undecoded packing id octets => exact decoded.elim

theorem isVacuous_unregistered (filled : content.isVacuous c = false) :
    (content.unregistered c).isVacuous c.withoutRegistrations = false := by
  cases content with
  | text characters => exact filled
  | restricted id characters =>
      rcases unregistered_restricted_cases c id characters with
        ⟨_, _, same⟩ | ⟨_, _, _, same⟩ | ⟨_, _, same⟩
      · rw [same]
        exact filled
      · rw [same]
        rfl
      · rw [same]
        exact filled
  | typed id value =>
      rcases unregistered_typed_cases c id value with
        ⟨a, known, same⟩ | ⟨_, _, _, same⟩ | ⟨_, unknown, _, same⟩
      · rw [same, isVacuous, Codec.withoutRegistrations_algorithms,
          AlgorithmRegistry.encode_of_builtin known c.algorithms]
        exact filled
      · rw [same]
        rfl
      · rw [same, isVacuous, Codec.withoutRegistrations_algorithms, AlgorithmRegistry.encode,
          AlgorithmRegistry.get, unknown]
        rfl
  | undecoded packing id octets => rfl

theorem isBlank_of_unregistered (blank : (content.unregistered c).isBlank = true) :
    content.isBlank = true := by
  cases content with
  | restricted id characters =>
      rcases unregistered_restricted_cases c id characters with
        ⟨_, _, same⟩ | ⟨_, _, _, same⟩ | ⟨_, _, same⟩
      · rwa [same] at blank
      · rw [same] at blank
        cases blank
      · rwa [same] at blank
  | typed id value =>
      rcases unregistered_typed_cases c id value with
        ⟨_, _, same⟩ | ⟨_, _, _, same⟩ | ⟨_, _, _, same⟩
      · rwa [same] at blank
      · rw [same] at blank
        cases blank
      · rwa [same] at blank
  | _ => exact blank

/-! ## Normal forms -/

theorem written_written (content : Content) :
    (content.written c).written c = content.written c := by
  cases content with
  | restricted id characters =>
      rw [written]
      by_cases packs : isPackable c id characters = true
      · rw [if_pos packs, written, if_pos packs]
      · rw [if_neg packs]
        rfl
  | _ => rfl

theorem isBlank_written (content : Content) : (content.written c).isBlank = content.isBlank := by
  cases content with
  | restricted id characters =>
      rw [written]
      split <;> rfl
  | _ => rfl

/-- Content that is not left out for being blank is not left out the second time either. -/
theorem shown_unregistered (shown : ¬(c.config.ignoreBlankText && content.isBlank) = true) :
    ¬(c.config.ignoreBlankText && ((content.written c).unregistered c).isBlank) = true := by
  rw [Bool.and_eq_true] at shown ⊢
  rintro ⟨ignores, blank⟩
  apply shown
  refine ⟨ignores, ?_⟩
  rw [← isBlank_written]
  exact isBlank_of_unregistered blank

theorem isDecoded_written (decoded : content.IsDecoded) : (content.written c).IsDecoded := by
  cases content with
  | restricted id characters =>
      rw [written]
      split <;> trivial
  | undecoded packing id octets => exact decoded
  | _ => trivial

theorem isDecoded_asValue (decoded : content.IsDecoded) : (content.asValue c).IsDecoded := by
  rw [asValue]
  split
  · trivial
  · exact decoded

theorem written_asValue (normal : content.written c = content) :
    (content.asValue c).written c = content.asValue c := by
  rw [asValue]
  split
  · rfl
  · exact normal

theorem written_unregistered (normal : content.written c = content) :
    (content.unregistered c).written c.withoutRegistrations = content.unregistered c := by
  cases content with
  | restricted id characters =>
      have packs : isPackable c id characters = true := by
        rw [written] at normal
        split at normal
        · next packs => exact packs
        · cases normal
      rcases unregistered_restricted_cases c id characters with
        ⟨a, known, same⟩ | ⟨_, _, _, same⟩ | ⟨_, refused, same⟩
      · have packs' : isPackable c.withoutRegistrations id characters = true := by
          rw [isPackable, AlphabetRegistry.find?_of_builtin known c.alphabets] at packs
          rw [isPackable, Codec.withoutRegistrations_alphabets, known]
          exact packs
        rw [same, written, if_pos packs']
      · rw [same]
        rfl
      · rw [isPackable_eq, refused] at packs
        cases packs
  | typed id value =>
      rcases unregistered_typed_cases c id value with
        ⟨_, _, same⟩ | ⟨_, _, _, same⟩ | ⟨_, _, _, same⟩ <;> rw [same] <;> rfl
  | _ => rfl

theorem asValue_unregistered (content : Content) :
    ((content.asValue c).unregistered c).asValue c.withoutRegistrations =
      (content.asValue c).unregistered c := by
  by_cases empty : content.isVacuous c = true
  · have plain : content.asValue c = text "" := if_pos empty
    rw [plain]
    rfl
  · have whole : content.asValue c = content := if_neg empty
    rw [whole, asValue, isVacuous_unregistered (Bool.eq_false_iff.2 empty)]
    rfl

end Content

theorem QualifiedName.resolved_resolved (opened : List (List NamespaceDeclaration))
    (kind : NameKind) (name : QualifiedName) :
    (name.resolved opened kind).resolved opened kind = name.resolved opened kind := by
  unfold resolved
  by_cases given : (name.hasNamespace || (kind = .attribute && !name.hasPrefix)) = true
  · rw [if_pos given, if_pos given]
  · rw [if_neg given]
    split <;> rfl

def Attribute.unregistered (c : Codec) (a : Attribute) : Attribute :=
  { a with value := a.value.unregistered c }

namespace Event

def unregistered (c : Codec) : Event → Event
  | startElement name declarations attributes =>
    startElement name declarations (attributes.map (Attribute.unregistered c))
  | characters content => characters (content.unregistered c)
  | event => event

/-- The content of the event is decoded. -/
def IsDecoded : Event → Prop
  | startElement _ _ attributes => ∀ a ∈ attributes, a.value.IsDecoded
  | characters content => content.IsDecoded
  | _ => True

variable {c : Codec} {opened : List (List NamespaceDeclaration)}

theorem openedAfter_unregistered (event : Event) (opened : List (List NamespaceDeclaration)) :
    (event.unregistered c).openedAfter opened = event.openedAfter opened := by
  cases event <;> rfl

end Event

theorem Attribute.normalised_unregistered (c : Codec) (opened : List (List NamespaceDeclaration))
    (a : Attribute) :
    ((a.normalised c opened).unregistered c).normalised c.withoutRegistrations opened =
      (a.normalised c opened).unregistered c := by
  have value : ((((a.value.written c).asValue c).unregistered c).written
      c.withoutRegistrations).asValue c.withoutRegistrations =
        ((a.value.written c).asValue c).unregistered c := by
    rw [Content.written_unregistered (Content.written_asValue (Content.written_written a.value)),
      Content.asValue_unregistered]
  simp only [normalised, unregistered, value, QualifiedName.resolved_resolved]

/-- What is left of an event in normal form is in normal form again. -/
theorem Event.normalised?_unregistered {c : Codec} {opened : List (List NamespaceDeclaration)}
    {event normal : Event} (h : event.normalised? c opened = some normal) :
    (normal.unregistered c).normalised? c.withoutRegistrations opened =
      some (normal.unregistered c) := by
  cases event with
  | startDocument header =>
      cases h
      rfl
  | startElement name declarations attributes =>
      cases h
      have each : ∀ a ∈ attributes,
          ((a.normalised c (declarations :: opened)).unregistered c).normalised
            c.withoutRegistrations (declarations :: opened) =
              (a.normalised c (declarations :: opened)).unregistered c :=
        fun a _ => a.normalised_unregistered c _
      simp only [unregistered, normalised?, QualifiedName.resolved_resolved, List.map_map]
      congr 2
      exact List.map_congr_left each
  | characters content =>
      rw [normalised?] at h
      split at h
      · cases h
      · next taken =>
          cases h
          rw [Bool.or_eq_true, not_or] at taken
          obtain ⟨shown, filled⟩ := taken
          have filled : (content.written c).isVacuous c = false := by
            rw [Content.isVacuous_written]
            exact Bool.eq_false_iff.2 filled
          have left : ¬(c.config.ignoreBlankText &&
              ((content.written c).unregistered c).isBlank ||
                ((content.written c).unregistered c).isVacuous c.withoutRegistrations) = true := by
            rw [Content.isVacuous_unregistered filled, Bool.or_false]
            exact Content.shown_unregistered shown
          rw [unregistered, normalised?,
            Content.written_unregistered (Content.written_written content)]
          exact if_neg left
  | comment text =>
      rw [normalised?] at h
      split at h
      · cases h
      · next told =>
          cases h
          exact if_neg told
  | instruction target data =>
      rw [normalised?] at h
      split at h
      · cases h
      · next told =>
          cases h
          exact if_neg told
  | endElement =>
      cases h
      rfl
  | endDocument => cases h

theorem Event.isReadable_unregistered {c : Codec} {opened : List (List NamespaceDeclaration)}
    {event normal : Event} (decoded : event.IsDecoded)
    (h : event.normalised? c opened = some normal) :
    (normal.unregistered c).IsReadable c.withoutRegistrations := by
  cases event with
  | startElement name declarations attributes =>
      cases h
      intro a mem
      simp only [List.map_map, List.mem_map, Function.comp_apply] at mem
      obtain ⟨b, inside, rfl⟩ := mem
      apply Content.isReadable_unregistered
      exact Content.isDecoded_asValue (Content.isDecoded_written (decoded b inside))
  | characters content =>
      rw [normalised?] at h
      split at h <;> cases h
      exact Content.isReadable_unregistered (Content.isDecoded_written decoded)
  | comment | instruction =>
      rw [normalised?] at h
      split at h <;> cases h
      trivial
  | startDocument | endElement =>
      cases h
      trivial
  | endDocument => cases h

end BinaryXml
