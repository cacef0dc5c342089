import BinaryXml.Proofs.EncoderScopes
import BinaryXml.Proofs.SessionRoundTrip
import BinaryXml.Proofs.WriterErrors

/-!
# Events that are refused recoverably

The one thing that makes an encoder fail recoverably is a typed value that has no octets. As
content of an element the value can be replaced: nothing has changed. As the value of an attribute
it cannot, because everything in front of it has been written by then. The encoder is inside a
start tag that no event continues, and the scope of the element is open.
-/

namespace BinaryXml

namespace Writer

variable {c : Codec} {call : Call} {w w' : Writer} {cause : CodecError}

/-- A failure that may be recovered from has changed nothing. -/
theorem recoverable_of_perform (h : perform c call w = .error cause w')
    (recoverable : cause.isRecoverable = true) :
    call.item? c w.tables = .error cause ∧ w' = w := by
  rcases perform_eq_error h with ⟨-, ⟨p, rfl⟩, -⟩ | ⟨unmade, same, -⟩ | blocked
  · cases recoverable
  · exact ⟨unmade, same⟩
  · obtain ⟨reason, rfl⟩ := blocked.cause_eq
    cases recoverable

end Writer

namespace Encoder

variable {α β : Type} {c : Codec} {e e' : Encoder} {cause : CodecError}

/-! ## Steps that fail for good -/

/-- No failure of the step may be recovered from. -/
def FailsForGood (p : Encoding α) : Prop :=
  ∀ e cause e', p e = .error cause e' → cause.isRecoverable = false

theorem FailsForGood.elim {p : Encoding α} (h : FailsForGood p) (failed : p e = .error cause e')
    (recoverable : cause.isRecoverable = true) : False := by
  cases recoverable.symm.trans (h e cause e' failed)

theorem failsForGood_pure (a : α) : FailsForGood (pure a : Encoding α) := by
  intro e cause e' h
  cases h

theorem FailsForGood.bind {p : Encoding α} {f : α → Encoding β} (first : FailsForGood p)
    (second : ∀ a, FailsForGood (f a)) : FailsForGood (p >>= f) := by
  intro e cause e' h
  rcases bind_eq_error h with failed | ⟨a, u, -, failed⟩
  · exact first e cause e' failed
  · exact second a u cause e' failed

theorem failsForGood_forM {f : β → Encoding Unit} (step : ∀ x, FailsForGood (f x))
    (xs : List β) : FailsForGood (xs.forM f) := by
  induction xs with
  | nil => exact failsForGood_pure ()
  | cons x xs ih => exact (step x).bind fun _ => ih

theorem failsForGood_scoping (f : NamespaceScopes → Except NamespaceError NamespaceScopes) :
    FailsForGood (scoping f) := by
  intro e cause e' h
  unfold scoping at h
  split at h <;> cases h
  rfl

theorem failsForGood_resolve (kind : NameKind) (name : QualifiedName) :
    FailsForGood (resolve kind name) := by
  intro e cause e' h
  unfold resolve at h
  split at h <;> cases h
  rfl

theorem recoverable_of_call {call : Call} (h : Encoder.call c call e = .error cause e')
    (recoverable : cause.isRecoverable = true) :
    call.item? c e.writer.tables = .error cause ∧ e' = e := by
  obtain ⟨failed, kept⟩ := call_eq_error h
  obtain ⟨unmade, same⟩ := Writer.recoverable_of_perform failed recoverable
  rw [same] at kept
  exact ⟨unmade, kept⟩

/-- A call without content that gives names by their parts has nothing to be replaced. -/
theorem failsForGood_call {call : Call} (byParts : call.namesByIndex = false)
    (plain : call.content? = none) : FailsForGood (Encoder.call c call) := by
  intro e cause e' h
  apply Bool.eq_false_iff.2
  intro recoverable
  obtain ⟨unmade, -⟩ := recoverable_of_call h recoverable
  rcases Call.item?_eq_error unmade with ⟨f, rfl⟩ | ⟨-, byIndex⟩ | ⟨content, _, given, -⟩
  · cases recoverable
  · cases byParts.symm.trans byIndex
  · cases plain.symm.trans given

theorem failsForGood_openScope (ds : List NamespaceDeclaration) : FailsForGood (openScope ds) :=
  (failsForGood_scoping _).bind fun _ => failsForGood_forM (fun _ => failsForGood_scoping _) ds

theorem failsForGood_writeDeclarations (ds : List NamespaceDeclaration) :
    FailsForGood (writeDeclarations c ds) :=
  (failsForGood_call rfl rfl).bind fun _ =>
    (failsForGood_forM (fun _ => failsForGood_call rfl rfl) ds).bind fun _ =>
      failsForGood_call rfl rfl

/-! ## Content -/

theorem content_of_call {toCall : Content → Call} {content : Content}
    (byParts : (toCall content).namesByIndex = false)
    (given : (toCall content).content? = some content)
    (h : Encoder.call c (toCall content) e = .error cause e')
    (recoverable : cause.isRecoverable = true) :
    e' = e ∧
      ((∃ id characters a, content = .restricted id characters ∧ cause = .alphabet a) ∨
        ∃ id value a, content = .typed id value ∧ cause = .algorithm a ∧
          c.algorithms.encode id value = .error a) := by
  obtain ⟨unmade, same⟩ := recoverable_of_call h recoverable
  refine ⟨same, ?_⟩
  rcases Call.item?_eq_error unmade with ⟨f, rfl⟩ | ⟨-, byIndex⟩ | ⟨content', _, given', failed⟩
  · cases recoverable
  · cases byParts.symm.trans byIndex
  · cases given.symm.trans given'
    rcases Tables.represent?_eq_error failed with
      ⟨id, characters, a, written, because, -⟩ | ⟨id, value, a, written, because, unknown⟩
    · exact .inl ⟨id, characters, a, written, because⟩
    · exact .inr ⟨id, value, a, written, because, unknown⟩

theorem allowsPlainText_of_recoverable {a : AlphabetError}
    (recoverable : (CodecError.alphabet a).isRecoverable = true) :
    allowsPlainText (.alphabet a) = true := by
  cases a with
  | unknownAlphabet | characterNotInAlphabet => rfl
  | _ => cases recoverable

/-- Text that an alphabet cannot pack is written plainly, so that only typed values are left. -/
theorem recoverable_of_callWith {toCall : Content → Call} {content : Content}
    (byParts : ∀ content, (toCall content).namesByIndex = false)
    (given : ∀ content, (toCall content).content? = some content)
    (h : callWith c toCall content e = .error cause e')
    (recoverable : cause.isRecoverable = true) :
    e' = e ∧ ∃ id value a, content = .typed id value ∧ cause = .algorithm a ∧
      c.algorithms.encode id value = .error a := by
  have packed {content : Content} {e e' : Encoder} {cause : CodecError}
      (failed : Encoder.call c (toCall content) e = .error cause e')
      (recoverable : cause.isRecoverable = true) :=
    content_of_call (byParts content) (given content) failed recoverable
  cases content with
  | restricted id characters =>
      unfold callWith at h
      dsimp only at h
      split at h
      · cases h
      · next cause' u failed =>
          split at h
          · obtain ⟨-, ⟨_, _, _, other, -⟩ | ⟨_, _, _, other, -⟩⟩ := packed h recoverable
            · cases other
            · cases other
          · next strict =>
              cases h
              obtain ⟨-, ⟨_, _, a, -, rfl⟩ | ⟨_, _, _, other, -⟩⟩ := packed failed recoverable
              · exact absurd (allowsPlainText_of_recoverable recoverable) strict
              · cases other
  | typed id value =>
      obtain ⟨same, ⟨_, _, _, other, -⟩ | found⟩ := packed h recoverable
      · cases other
      · exact ⟨same, found⟩
  | text characters =>
      obtain ⟨-, ⟨_, _, _, other, -⟩ | ⟨_, _, _, other, -⟩⟩ := packed h recoverable
      · cases other
      · cases other
  | undecoded packing id octets =>
      obtain ⟨-, ⟨_, _, _, other, -⟩ | ⟨_, _, _, other, -⟩⟩ := packed h recoverable
      · cases other
      · cases other

/-! ## Starts of elements -/

/-- Writes the start of an element from its declarations to the name of an attribute. -/
def writeUntil (c : Codec) (name : QualifiedName) (declarations : List NamespaceDeclaration)
    (written : List Attribute) (last : QualifiedName) : Encoding Unit := do
  (if declarations.isEmpty then pure () else writeDeclarations c declarations)
  call c (.elementName (.named name))
  call c .startAttributes
  written.forM (writeAttribute c)
  let last ← resolve .attribute last
  call c (.attributeName (.named last))

/-- Does what an element start does before the value of the attribute `last`, which follows those
that were `written`. -/
def startUntil (c : Codec) (name : QualifiedName) (declarations : List NamespaceDeclaration)
    (written : List Attribute) (last : QualifiedName) : Encoding Unit := do
  openScope declarations
  let name ← resolve .element name
  call c .mark
  writeUntil c name declarations written last

/-- An attribute is refused recoverably for its value alone, when its name is written. -/
theorem recoverable_of_writeAttribute {a : Attribute}
    (h : writeAttribute c a e = .error cause e') (recoverable : cause.isRecoverable = true) :
    (∃ name, e.scopes.resolveName .attribute a.name = .ok name ∧
      call c (.attributeName (.named name)) e = .ok () e') ∧
    ∃ id value b, a.value = .typed id value ∧ cause = .algorithm b ∧
      c.algorithms.encode id value = .error b := by
  rcases bind_eq_error h with failed | ⟨name, u, resolved, rest⟩
  · exact ((failsForGood_resolve _ _).elim failed recoverable).elim
  obtain ⟨found, rfl⟩ := resolve_eq_ok resolved
  rcases bind_eq_error rest with failed | ⟨_, v, named, failed⟩
  · exact ((failsForGood_call rfl rfl).elim failed recoverable).elim
  obtain ⟨rfl, unknown⟩ := recoverable_of_callWith (fun _ => rfl) (fun _ => rfl) failed recoverable
  exact ⟨⟨name, found, named⟩, unknown⟩

/-- The start of an element is refused recoverably between the name and the value of one of its
attributes. -/
theorem recoverable_of_startElement {name : QualifiedName} {ds : List NamespaceDeclaration}
    {attributes : List Attribute} (h : startElement c name ds attributes e = .error cause e')
    (recoverable : cause.isRecoverable = true) :
    ∃ written a rest, attributes = written ++ a :: rest ∧
      startUntil c name ds written a.name e = .ok () e' ∧
      ∃ id value b, a.value = .typed id value ∧ cause = .algorithm b ∧
        c.algorithms.encode id value = .error b := by
  -- Every step but those of the loop over the attributes fails for good, and so none of them is
  -- the one that failed.
  have final {γ : Type} {p : Encoding γ} {e : Encoder} (forGood : FailsForGood p)
      (failed : p e = .error cause e') : False := forGood.elim failed recoverable
  rcases bind_eq_error h with failed | ⟨_, u, opened, h⟩
  · exact (final (failsForGood_openScope ds) failed).elim
  rcases bind_eq_error h with failed | ⟨resolved, v, found, h⟩
  · exact (final (failsForGood_resolve _ _) failed).elim
  rcases bind_eq_error h with failed | ⟨_, x, marked, h⟩
  · exact (final (failsForGood_call rfl rfl) failed).elim
  rcases bind_eq_error h with h | ⟨_, _, -, failed⟩
  · rw [writeParts_eq] at h
    have declarations : FailsForGood (if ds.isEmpty then pure () else writeDeclarations c ds) := by
      split
      · exact failsForGood_pure ()
      · exact failsForGood_writeDeclarations ds
    rcases bind_eq_error h with failed | ⟨_, y, declared, h⟩
    · exact (final declarations failed).elim
    rcases bind_eq_error h with failed | ⟨_, z, named, h⟩
    · exact (final (failsForGood_call rfl rfl) failed).elim
    cases attributes with
    | nil => cases h
    | cons first others =>
        rcases bind_eq_error h with failed | ⟨_, started, announced, h⟩
        · exact (final (failsForGood_call rfl rfl) failed).elim
        obtain ⟨written, a, rest, reached, split, before, failed⟩ := forM_eq_error h
        obtain ⟨⟨last, found', named'⟩, unknown⟩ := recoverable_of_writeAttribute failed recoverable
        refine ⟨written, a, rest, split, ?_, unknown⟩
        have resolved' : resolve .attribute a.name reached = .ok last reached := by
          rw [resolve, found']
        rw [startUntil, bind_of_ok opened, bind_of_ok found, bind_of_ok marked, writeUntil,
          bind_of_ok declared, bind_of_ok named, bind_of_ok announced, bind_of_ok before,
          bind_of_ok resolved', named']
  · exact (final (failsForGood_call rfl rfl) failed).elim

theorem staysInside_writeUntil (name : QualifiedName) (ds : List NamespaceDeclaration)
    (written : List Attribute) (last : QualifiedName) :
    StaysInside (writeUntil c name ds written last) := by
  have declarations : StaysInside (if ds.isEmpty then pure () else writeDeclarations c ds) := by
    split
    · exact staysInside_pure ()
    · exact staysInside_writeDeclarations ds
  exact declarations.bind fun _ => (staysInside_call rfl).bind fun _ =>
    (staysInside_call rfl).bind fun _ =>
      (staysInside_forM staysInside_writeAttribute written).bind fun _ =>
        (staysInside_resolve _ _).bind fun _ => staysInside_call rfl

theorem stage_of_writeUntil {name : QualifiedName} {ds : List NamespaceDeclaration}
    {written : List Attribute} {last : QualifiedName}
    (h : writeUntil c name ds written last e = .ok () e') : e'.writer.stage = .value := by
  obtain ⟨_, _, -, h⟩ := bind_eq_ok h
  obtain ⟨_, _, -, h⟩ := bind_eq_ok h
  obtain ⟨_, _, -, h⟩ := bind_eq_ok h
  obtain ⟨_, _, -, h⟩ := bind_eq_ok h
  obtain ⟨_, _, -, h⟩ := bind_eq_ok h
  obtain ⟨⟨reply, performed⟩, -⟩ := call_eq_ok h
  exact Writer.stage_of_perform performed

/-- Before the value of an attribute the writer waits for it, and the element has its scope. -/
theorem startUntil_eq_ok {name : QualifiedName} {ds : List NamespaceDeclaration}
    {written : List Attribute} {last : QualifiedName}
    (h : startUntil c name ds written last e = .ok () e') :
    e'.writer.stage = .value ∧ e'.scopes.depth = e.scopes.depth + 1 := by
  obtain ⟨_, u, opened, continued⟩ := bind_eq_ok h
  obtain ⟨resolved, v, found, begun⟩ := bind_eq_ok continued
  obtain ⟨-, rfl⟩ := resolve_eq_ok found
  obtain ⟨_, x, marked, rest⟩ := bind_eq_ok begun
  have opening := after_openScope ds e
  rw [after_of_ok opened] at opening
  obtain ⟨inside, -, scopes⟩ := kept_of_call rfl marked
  obtain ⟨-, scopes'⟩ := (staysInside_writeUntil resolved ds written last x inside).2 _ _ rest
  refine ⟨stage_of_writeUntil rest, ?_⟩
  rw [scopes', scopes, opening.2]

theorem write_startElement_of_inside (inside : e.isBetween = false) (name : QualifiedName)
    (ds : List NamespaceDeclaration) (attributes : List Attribute) :
    ∃ cause e', write c (.startElement name ds attributes) e = .error cause e' := by
  cases done : write c (.startElement name ds attributes) e with
  | error cause e' => exact ⟨cause, e', rfl⟩
  | ok _ e' =>
      unfold write at done
      split at done
      · cases done
      · have between := (startElement_eq_ok done).1
        rw [inside] at between
        cases between

/-! ## Events -/

/-- Content that is refused recoverably leaves the encoder as it was. -/
theorem recoverable_of_writeEvent {event : Event} (h : writeEvent c event e = .error cause e')
    (recoverable : cause.isRecoverable = true)
    (other : ∀ name ds attributes, event ≠ .startElement name ds attributes) :
    e' = e ∧ ∃ id value b, event = .characters (.typed id value) ∧ cause = .algorithm b ∧
      c.algorithms.encode id value = .error b := by
  have final {p : Encoding Unit} {e : Encoder} (forGood : FailsForGood p)
      (failed : p e = .error cause e') : False := forGood.elim failed recoverable
  cases event with
  | startDocument header =>
      exact (final ((failsForGood_call rfl rfl).bind fun _ => failsForGood_call rfl rfl) h).elim
  | startElement name ds attributes => exact absurd rfl (other name ds attributes)
  | characters content =>
      unfold writeEvent at h
      dsimp only at h
      split at h
      · cases h
      · obtain ⟨same, id, value, b, rfl, because, unknown⟩ :=
          recoverable_of_callWith (fun _ => rfl) (fun _ => rfl) h recoverable
        exact ⟨same, id, value, b, rfl, because, unknown⟩
  | comment text =>
      unfold writeEvent at h
      dsimp only at h
      split at h
      · cases h
      · exact (final (failsForGood_call rfl rfl) h).elim
  | instruction target data =>
      unfold writeEvent at h
      dsimp only at h
      split at h
      · cases h
      · exact (final (failsForGood_call rfl rfl) h).elim
  | endElement =>
      exact (final ((failsForGood_call rfl rfl).bind fun _ => failsForGood_scoping _) h).elim
  | endDocument => cases h

/-- An event is refused recoverably for a typed value without octets. If the value is content of
an element, the encoder is as it was. If it is the value of an attribute, all that comes before it
in the start of the element has been written, its scope is open, and no start of an element is
accepted in its place. -/
theorem unchanged_iff_of_recoverable (c : Codec) (e : Encoder) (event : Event)
    (cause : CodecError) (e' : Encoder) (failed : write c event e = .error cause e')
    (recoverable : cause.isRecoverable = true) :
    (e' = e ↔ ∀ name ds attributes, event ≠ .startElement name ds attributes) ∧
      ∃ id value b, cause = .algorithm b ∧ c.algorithms.encode id value = .error b ∧
        (event = .characters (.typed id value) ∨
          ∃ name ds written last rest,
            event = .startElement name ds (written ++ ⟨last, .typed id value⟩ :: rest) ∧
            startUntil c name ds written last e = .ok () e' ∧
            e'.writer.stage = .value ∧ e'.scopes.depth = e.scopes.depth + 1 ∧
            ∀ name ds attributes, ∃ cause' e'',
              write c (.startElement name ds attributes) e' = .error cause' e'') := by
  unfold write at failed
  split at failed
  · cases failed
    cases recoverable
  by_cases other : ∃ name ds attributes, event = .startElement name ds attributes
  · obtain ⟨name, ds, attributes, rfl⟩ := other
    obtain ⟨written, ⟨last, _⟩, rest, rfl, reached, id, value, b, rfl, because, unknown⟩ :=
      recoverable_of_startElement failed recoverable
    obtain ⟨stage, scopes⟩ := startUntil_eq_ok reached
    refine ⟨⟨?_, fun absent => absurd rfl (absent _ _ _)⟩, id, value, b, because, unknown, .inr ?_⟩
    · intro same
      rw [same] at scopes
      omega
    · refine ⟨name, ds, written, last, rest, rfl, reached, stage, scopes, ?_⟩
      exact write_startElement_of_inside (by rw [isBetween, stage]; rfl)
  · have other : ∀ name ds attributes, event ≠ .startElement name ds attributes :=
      fun name ds attributes is => other ⟨name, ds, attributes, is⟩
    obtain ⟨same, id, value, b, given, because, unknown⟩ :=
      recoverable_of_writeEvent failed recoverable other
    exact ⟨⟨fun _ => other, fun _ => same⟩, id, value, b, because, unknown, .inl given⟩

/-- A vocabulary that knows an element and an attribute. -/
def twoNames : SharedVocabulary where
  externalUri := some "urn:two"
  vocabulary :=
    { Session.oneElement.vocabulary with
      attributeNames :=
        { base := Roster.empty.push { localName := "b" } (by
            simp [Roster.empty, Roster.indexOf?]) } }
  reset_eq := rfl

def twoNamesCodec : Codec where
  initial? := some twoNames
  externals := [("urn:two", twoNames)]
  initial_named v h := by
    cases h
    exact ⟨"urn:two", rfl, rfl⟩

/-- The encoder behind the header. -/
def twoNamesEncoder : Encoder :=
  ((twoNamesCodec.encoderSession {}).run twoNamesCodec [.startDocument {}]).encoder

/-- The writer when the element has begun. -/
def twoNamesMark : Writer :=
  { twoNamesEncoder.writer with stage := .marked, mark? := some twoNamesEncoder.writer.buffer.size }

/-- The writer behind the name of the element. -/
def twoNamesElement : Writer :=
  { twoNamesMark with buffer := twoNamesMark.buffer.push 0, stage := .named }

/-- The writer when attributes are announced. -/
def twoNamesAttributes : Writer :=
  { twoNamesElement.announceAttributes with stage := .attributes }

/-- The writer behind the name of the attribute. -/
def twoNamesAttribute : Writer :=
  { twoNamesAttributes with buffer := twoNamesAttributes.buffer.push 0, stage := .value }

theorem call_elementName_twoNames :
    call twoNamesCodec (.elementName (.named { localName := "a" }))
        ⟨twoNamesMark, .ofElements [[]], false⟩ =
      .ok () ⟨twoNamesElement, .ofElements [[]], false⟩ := by
  have known : twoNames.vocabulary.elementNames.wireIndex? { localName := "a" } = some 0 :=
    Table.wireIndex?_of_base rfl (by decide)
  have written : Writer.carryOut twoNamesCodec (.elementName (.named { localName := "a" }))
      twoNamesMark = .ok () { twoNamesMark with buffer := twoNamesMark.buffer.push 0 } :=
    (Writer.carryOut_named (w := twoNamesMark) known rfl).trans rfl
  exact call_of_perform (Writer.perform_of_carryOut (by decide) rfl written)

theorem call_attributeName_twoNames :
    call twoNamesCodec (.attributeName (.named { localName := "b" }))
        ⟨twoNamesAttributes, .ofElements [[]], false⟩ =
      .ok () ⟨twoNamesAttribute, .ofElements [[]], false⟩ := by
  have known : twoNames.vocabulary.attributeNames.wireIndex? { localName := "b" } = some 0 :=
    Table.wireIndex?_of_base rfl (by decide)
  have written : Writer.carryOut twoNamesCodec (.attributeName (.named { localName := "b" }))
      twoNamesAttributes =
        .ok () { twoNamesAttributes with buffer := twoNamesAttributes.buffer.push 0 } :=
    (Writer.carryOut_namedAttribute (w := twoNamesAttributes) known rfl).trans rfl
  exact call_of_perform (Writer.perform_of_carryOut (by decide) rfl written)

theorem write_twoNamesEncoder :
    write twoNamesCodec (.startElement { localName := "a" } []
        [⟨{ localName := "b" }, .typed 40 (.text "x")⟩]) twoNamesEncoder =
      .error (.algorithm (.unknownAlgorithm 40)) ⟨twoNamesAttribute, .ofElements [[]], false⟩ := by
  have refused : writeAttribute twoNamesCodec ⟨{ localName := "b" }, .typed 40 (.text "x")⟩
      ⟨twoNamesAttributes, .ofElements [[]], false⟩ =
        .error (.algorithm (.unknownAlgorithm 40)) ⟨twoNamesAttribute, .ofElements [[]], false⟩ := by
    change (call twoNamesCodec (.attributeName (.named { localName := "b" })) >>= fun _ =>
      callWith twoNamesCodec .attributeValue (.typed 40 (.text "x"))) _ = _
    rw [bind_of_ok call_attributeName_twoNames]
    rfl
  have parts : writeParts twoNamesCodec { localName := "a" } []
      [⟨{ localName := "b" }, .typed 40 (.text "x")⟩] ⟨twoNamesMark, .ofElements [[]], false⟩ =
        .error (.algorithm (.unknownAlgorithm 40)) ⟨twoNamesAttribute, .ofElements [[]], false⟩ := by
    change (call twoNamesCodec (.elementName (.named { localName := "a" })) >>= fun _ =>
      writeAttributes twoNamesCodec [⟨{ localName := "b" }, .typed 40 (.text "x")⟩]) _ = _
    rw [bind_of_ok call_elementName_twoNames]
    exact (bind_of_ok rfl).trans (bind_of_error refused)
  change (writeParts twoNamesCodec { localName := "a" } []
      [⟨{ localName := "b" }, .typed 40 (.text "x")⟩] >>=
    fun _ => call twoNamesCodec .endStartElement) ⟨twoNamesMark, .ofElements [[]], false⟩ = _
  exact bind_of_error parts

/-- The value of an attribute is refused after the names of the element and the attribute were
written. The same element with another value is refused as well. -/
theorem unchanged_iff_of_recoverable_unknownAlgorithm :
    ∃ e', write twoNamesCodec (.startElement { localName := "a" } []
          [⟨{ localName := "b" }, .typed 40 (.text "x")⟩]) twoNamesEncoder =
        .error (.algorithm (.unknownAlgorithm 40)) e' ∧
      e' ≠ twoNamesEncoder ∧ e'.writer.stage = .value ∧
      ∃ cause e'', write twoNamesCodec (.startElement { localName := "a" } []
        [⟨{ localName := "b" }, .text "x"⟩]) e' = .error cause e'' := by
  obtain ⟨unchanged, _, _, _, -, -, content | ⟨_, _, _, _, _, -, -, stage, -, refused⟩⟩ :=
    unchanged_iff_of_recoverable twoNamesCodec twoNamesEncoder _ _ _ write_twoNamesEncoder rfl
  · cases content
  · exact ⟨_, write_twoNamesEncoder, fun same => unchanged.1 same _ _ _ rfl, stage, refused _ _ _⟩

end Encoder

end BinaryXml
