import BinaryXml.Proofs.EncoderSuccess

/-!
# Built codecs

However a codec was put together, its documents start from the vocabulary that was asked for last,
and under the URI of that vocabulary it finds no other. A document that can give the URI is read
back with the tables that it was written with. Two kinds of URI cannot be given, those without
characters and those that are longer than any length: a codec is built with them all the same, and
then refuses to start a document.
-/

namespace BinaryXml

/-! ## Steps -/

namespace CodecBuilder

/-- The vocabulary that documents start from after the step, if the step sets it. -/
def Step.initial? : Step → Option SharedVocabulary
  | startFrom shared => some shared
  | _ => none

/-- The vocabulary that the step provides under the URI. -/
def Step.provided? (uri : String) : Step → Option SharedVocabulary
  | provide shared => if shared.externalUri = some uri then some shared else none
  | _ => none

variable {b b' : CodecBuilder} {c : Codec} {step : Step} {steps : List Step}

/-- What a step does to the vocabularies. -/
theorem apply_eq_ok (h : b.apply step = .ok b') :
    b'.initial? = step.initial?.or b.initial? ∧
      ∀ uri, b'.externals.lookup uri = (step.provided? uri).or (b.externals.lookup uri) := by
  cases step with
  | configure | indexBy | startFrom =>
      cases h
      exact ⟨rfl, fun _ => rfl⟩
  | registerAlgorithm | registerAlphabet =>
      unfold apply at h
      dsimp only at h
      split at h <;> cases h
      exact ⟨rfl, fun _ => rfl⟩
  | provide shared =>
      unfold apply at h
      dsimp only at h
      split at h
      · next known named =>
          cases h
          refine ⟨rfl, fun uri => ?_⟩
          rw [List.lookup_cons, Step.provided?, named]
          by_cases same : uri = known
          · simp [same]
          · simp [beq_false_of_ne same, Ne.symm same]
      · cases h

/-- What every step replaces or keeps is what the last step made of it that replaced it. -/
theorem last_of_steps {α : Type} {read : CodecBuilder → Option α} {change : Step → Option α}
    (each : ∀ {b step b'}, apply b step = .ok b' → read b' = (change step).or (read b))
    (h : steps.foldlM apply b = .ok b') :
    read b' = (steps.reverse.findSome? change).or (read b) := by
  induction steps generalizing b with
  | nil =>
      cases h
      rfl
  | cons step steps ih =>
      rw [List.foldlM_cons] at h
      cases applied : apply b step with
      | error cause =>
          rw [applied] at h
          cases h
      | ok u =>
          rw [applied] at h
          rw [ih h, each applied, List.reverse_cons, List.findSome?_append, Option.or_assoc]
          cases made : change step <;> simp [made]

/-- What is built has the vocabulary that documents start from in front of those provided. -/
theorem build_eq_ok (h : b.build = .ok c) :
    c.initial? = b.initial? ∧
      ∀ uri, c.externals.lookup uri =
        (b.initial?.filter (·.externalUri = some uri)).or (b.externals.lookup uri) := by
  unfold build at h
  split at h
  · cases h
  dsimp only at h
  split at h
  · next none =>
      cases h
      rw [none]
      exact ⟨rfl, fun _ => rfl⟩
  · next shared some =>
      split at h
      · cases h
      · next known named =>
          cases h
          refine ⟨some.symm, fun uri => ?_⟩
          rw [some, List.lookup_cons]
          by_cases same : uri = known
          · simp [Option.filter, named, same]
          · simp [Option.filter, named, beq_false_of_ne same, Ne.symm same]

theorem initial?_of_steps (registered : ofSteps steps = .ok b) (built : b.build = .ok c) :
    c.initial? = steps.reverse.findSome? Step.initial? := by
  rw [(build_eq_ok built).1, last_of_steps (fun h => (apply_eq_ok h).1) registered]
  exact Option.or_none

/-- What a codec that was built in these steps finds under a URI. -/
theorem lookup_of_steps (registered : ofSteps steps = .ok b) (built : b.build = .ok c)
    (uri : String) :
    c.externals.lookup uri =
      ((steps.reverse.findSome? Step.initial?).filter (·.externalUri = some uri)).or
        (steps.reverse.findSome? (Step.provided? uri)) := by
  have initial := initial?_of_steps registered built
  have provided : b.externals.lookup uri = steps.reverse.findSome? (Step.provided? uri) :=
    (last_of_steps (fun h => (apply_eq_ok h).2 uri) registered).trans Option.or_none
  obtain ⟨same, found⟩ := build_eq_ok built
  rw [found, ← same, initial, provided]

end CodecBuilder

/-! ## URIs that cannot be given -/

/-- Why a document cannot give a URI, if it cannot. -/
def uriFailure? (uri : String) : Option FormatError :=
  if uri = "" then some .emptyValue
  else if uri.utf8ByteSize < lengthOnSecondBit.ceiling then none
  else some (.lengthOutOfRange (uri.utf8ByteSize - 321))

theorem Ladder.failure?_emit_lengthOnSecondBit {fixed : UInt8} {length : Nat}
    (long : lengthOnSecondBit.ceiling ≤ length) :
    (lengthOnSecondBit.emit fixed length).failure? = some (.lengthOutOfRange (length - 321)) := by
  have ceiling : lengthOnSecondBit.ceiling = 0x100000000 + 321 := by decide
  have last : lengthOnSecondBit.rungOfValue? length = some ⟨321, 0x60, 1, 4, 0⟩ := by
    have begun : 321 ≤ length := by omega
    simp [rungOfValue?, lengthOnSecondBit, begun]
  have above : ¬length - 321 < Rung.capacity ⟨321, 0x60, 1, 4, 0⟩ := by
    simp only [Rung.capacity, Rung.width]
    omega
  rw [emit, last]
  dsimp only
  rw [if_neg above]

theorem Item.failure?_emitTables (uri : String) :
    (emitTables (some uri)).failure? = uriFailure? uri := by
  have length : (emitTables (some uri)).failure? =
      (lengthOnSecondBit.emit 0x00 uri.utf8ByteSize).failure? := by
    rw [emitTables, Ladder.emitString, Utf8.length_encode, Emission.failure?_append,
      Emission.failure?_append]
    exact Option.or_none
  rw [length, uriFailure?]
  by_cases none : uri = ""
  · subst none
    rfl
  rw [if_neg none]
  by_cases short : uri.utf8ByteSize < lengthOnSecondBit.ceiling
  · rw [if_pos short]
    have filled : 1 ≤ uri.utf8ByteSize := by
      rw [← Utf8.length_encode]
      exact List.length_pos_iff.2 (CharacterEncoding.utf8.encode_ne_nil none)
    exact (Ladder.succeeds_emit_iff Representation.Form.identifying.cover_lengths _).2
      ⟨filled, short⟩
  · rw [if_neg short]
    exact Ladder.failure?_emit_lengthOnSecondBit (Nat.le_of_not_lt short)

/-! ## Tables behind a header -/

namespace Vocabulary

theorem reset_mapStrings {β : Type} (v : Vocabulary) (kind : StringKind)
    {f : Table (.strings kind) String → β × Table (.strings kind) String}
    (cleared : ∀ t, (f t).2.clear = t.clear) : (v.mapStrings kind f).2.reset = v.reset := by
  cases kind <;> simp [mapStrings, updateStrings, reset, Except.map, cleared]

theorem reset_mapNames {β : Type} (v : Vocabulary) (kind : NameKind)
    {f : Table (.names kind) QualifiedName → β × Table (.names kind) QualifiedName}
    (cleared : ∀ t, (f t).2.clear = t.clear) : (v.mapNames kind f).2.reset = v.reset := by
  cases kind <;> simp [mapNames, updateNames, reset, Except.map, cleared]

end Vocabulary

theorem Tables.clear_absorb {kind : TableKind} {α : Type} [DecidableEq α] [Hashable α]
    (t : Table kind α) (v : α) : (absorb t v).2.clear = t.clear := by
  unfold absorb
  split
  · rfl
  · split <;> rfl

theorem Tables.reset_enter (t : Tables) (entry : Entry) :
    (t.enter entry).vocabulary.reset = t.vocabulary.reset := by
  cases entry with
  | string kind r =>
      cases r with
      | literal value add =>
          cases add with
          | false => rfl
          | true => exact t.vocabulary.reset_mapStrings kind fun u => clear_absorb u value
      | indexed | packed => rfl
  | name kind name => exact t.vocabulary.reset_mapNames kind fun u => clear_absorb u name

/-- An item only adds to what the tables began with. -/
theorem Item.reset_enterInto (item : Item) (t : Tables) :
    (item.enterInto t).vocabulary.reset = t.vocabulary.reset := by
  unfold enterInto
  induction item.entries generalizing t with
  | nil => rfl
  | cons entry entries ih => rw [List.foldl_cons, ih, Tables.reset_enter]

/-! ## Documents without content -/

namespace Writer

variable {c : Codec} {header : DocumentHeader}

/-- Starts a document and ends it with nothing in it. -/
def writeEmpty (c : Codec) (header : DocumentHeader) : Writing Unit := do
  let _ ← perform c (.startDocument header)
  let _ ← perform c .initiate
  endDocument

theorem perform_startDocument_of_failure {cause : FormatError} (sink : Sink)
    (failure : (Item.emitTables c.initialUri?).failure? = some cause)
    (version : ∀ text ∈ header.version, IsShort text) :
    perform c (.startDocument header) (c.writer sink) =
      .error (.format cause) (c.writer sink) := by
  obtain ⟨e, entries, same, failed⟩ :=
    Item.exists_emission_ofHeader (c := c) (t := (c.writer sink).tables) version
  have unmade : Item.ofHeader c (c.writer sink).tables header = .error (.format cause) := by
    rw [same, Item.ofEmission, Emission.toExcept, failed, failure]
  have stuck : carryOut c (.startDocument header) (c.writer sink) =
      .error (.format cause) (c.writer sink) := by
    simp only [carryOut, writeNew, unmade]
  exact perform_of_error (fun poisoned => by cases poisoned) rfl stuck

variable {item : Item} {reply : Reply} {u w : Writer}

/-- A header is put in front of a new document unless the name of its tables cannot be given. -/
theorem exists_startDocument (named : (Item.emitTables c.initialUri?).Succeeds)
    (version : ∀ text ∈ header.version, IsShort text) :
    ∃ item reply u, Item.ofHeader c (c.writer {}).tables header = .ok item ∧
      perform c (.startDocument header) (c.writer {}) = .ok reply { u with stage := .started } ∧
      Wrote (c.writer {}) item u ∧ u.sink = { written := u.sink.written } := by
  obtain ⟨e, entries, same, failure⟩ :=
    Item.exists_emission_ofHeader (c := c) (t := (c.writer {}).tables) version
  obtain ⟨item, made⟩ := Item.exists_ofEmission (failure.trans named) entries
  rw [← same] at made
  have prepared : (Call.startDocument header).item? c (c.writer {}).tables = .ok (some item) := by
    rw [Call.item?, made]
    rfl
  obtain ⟨reply, started, performed⟩ := exists_perform rfl rfl prepared
  have sink := sink_of_perform performed
  obtain ⟨-, u, done, rfl⟩ := perform_eq_ok performed
  have written : writeNew (fun w => Item.ofHeader c w.tables header) (c.writer {}) = .ok () u :=
    done
  obtain ⟨item', made', wrote⟩ := wrote_of_writeNew written
  cases made.symm.trans made'
  exact ⟨item, reply, u, made, performed, wrote, sink⟩

/-- Nothing but a terminator comes behind the header. -/
theorem exists_writeEmpty
    (performed : perform c (.startDocument header) (c.writer {}) =
      .ok reply { u with stage := .started })
    (wrote : Wrote (c.writer {}) item u) (sink : u.sink = { written := u.sink.written }) :
    ∃ w, writeEmpty c header (c.writer {}) = .ok () w ∧
      endDocument { u with stage := .content } = .ok () w ∧
      w.sink.written.toList = item.octets ++ [Mark.terminator] := by
  let ready : Writer := { u with stage := .content }
  have initiated : perform c .initiate { u with stage := .started } = .ok .done ready := rfl
  obtain ⟨w, ended⟩ := exists_endDocument (w := ready) rfl wrote.depth_eq sink
  refine ⟨w, ?_, ended, ?_⟩
  · rw [writeEmpty, bind_of_ok performed]
    exact (bind_of_ok initiated).trans ended
  · have octets : u.octets = item.octets := wrote.octets_eq
    have pending : u.pending = .none := wrote.pending_eq
    rw [(endDocument_eq_ok ended).2.2, ← octets]
    simp [terminate, pending, ready, flushed, Termination.octets, Writer.octets]

theorem decode_of_started
    (performed : perform c (.startDocument header) (c.writer {}) =
      .ok reply { u with stage := .started })
    (ended : endDocument { u with stage := .content } = .ok () w) :
    c.decode w.sink.written.toList =
      .ok [.startDocument { header with externalVocabulary := c.initialUri? }, .endDocument] := by
  let noted : Transcript :=
    { events := [.startDocument { header with externalVocabulary := c.initialUri? }] }
  let started : Session := ⟨{ u with stage := .started }, noted⟩
  have initiated : perform c .initiate started.writer = .ok .done { u with stage := .content } :=
    rfl
  have ran : (c.session {}).run c [.call (.startDocument header), .call .initiate] =
      ⟨{ u with stage := .content }, noted⟩ := by
    have first : (c.session {}).act c (.call (.startDocument header)) = started :=
      Session.act_of_perform performed
    rw [Session.run, List.foldl_cons, first]
    exact Session.act_of_perform initiated
  have followed := Session.isFollowed_session c {} rfl
    [.call (.startDocument header), .call .initiate]
  rw [ran] at followed
  rcases followed with poisoned | follows
  · cases poisoned
  · rw [follows.decode_eq ended]
    rfl

end Writer

/-- A vocabulary without entries of its own. -/
def SharedVocabulary.unfilled (uri : String) : SharedVocabulary where
  externalUri := some uri
  vocabulary := .standard
  reset_eq := rfl

/-- A document without content has this header and names `shared` by its URI, and a reader starts
from the tables of `shared`. -/
structure Codec.Names (c : Codec) (header : DocumentHeader) (shared : SharedVocabulary)
    (uri : String) (document : Octets) : Prop where
  decode_eq : c.decode document =
    .ok [.startDocument { header with externalVocabulary := some uri }, .endDocument]
  readHeader_eq : ∃ v input, Decoder.readHeader c ⟨document, 0⟩ =
    .ok ({ header with externalVocabulary := some uri }, v) input ∧ v.reset = shared.vocabulary

namespace Codec

variable {c : Codec} {shared : SharedVocabulary} {uri : String} {header : DocumentHeader}

theorem initialUri?_eq_some (initial : c.initial? = some shared)
    (named : shared.externalUri = some uri) : c.initialUri? = some uri := by
  rw [initialUri?, initial]
  exact named

/-- A URI that can be given is given and leads back to the tables. -/
theorem exists_names (initial : c.initial? = some shared)
    (named : shared.externalUri = some uri) (fit : uriFailure? uri = none)
    (version : ∀ text ∈ header.version, IsShort text) :
    ∃ w, Writer.writeEmpty c header (c.writer {}) = .ok () w ∧
      c.Names header shared uri w.sink.written.toList := by
  have given := initialUri?_eq_some initial named
  have succeeds : (Item.emitTables c.initialUri?).Succeeds := by
    rw [given]
    exact (Item.failure?_emitTables uri).trans fit
  obtain ⟨item, reply, u, made, performed, wrote, sink⟩ :=
    Writer.exists_startDocument succeeds version
  obtain ⟨w, emptied, ended, written⟩ := Writer.exists_writeEmpty performed wrote sink
  have decoded := Writer.decode_of_started performed ended
  have read := (Decoder.yields_readHeader made wrote.fresh c.settled_startingVocabulary).ok
    [Mark.terminator] 0
  rw [given] at decoded read
  refine ⟨w, emptied, decoded, _, _, written ▸ read, ?_⟩
  have tables : (c.writer {}).tables.vocabulary = shared.vocabulary := by
    change Vocabulary.forDocument c.initial? = _
    rw [initial]
    rfl
  change (item.enterInto (c.writer {}).tables).vocabulary.reset = _
  rw [item.reset_enterInto, tables, shared.reset_eq]

end Codec

namespace CodecBuilder

/-- Whatever the steps were, a codec knows the vocabulary that was asked for last by its URI. Every
document gives that URI and is read with that vocabulary; but if the URI is one that cannot be
given, no document is started, and the writer is left as it was. -/
theorem names_of_build (steps : List Step) (b : CodecBuilder) (c : Codec)
    (shared : SharedVocabulary) (header : DocumentHeader) (registered : ofSteps steps = .ok b)
    (built : b.build = .ok c) (last : steps.reverse.findSome? Step.initial? = some shared)
    (version : ∀ text ∈ header.version, IsShort text) :
    ∃ uri, shared.externalUri = some uri ∧ c.external uri = .ok shared ∧
      (uriFailure? uri = none → ∃ w, Writer.writeEmpty c header (c.writer {}) = .ok () w ∧
        c.Names header shared uri w.sink.written.toList) ∧
      ∀ cause, uriFailure? uri = some cause →
        Writer.perform c (.startDocument header) (c.writer {}) =
          .error (.format cause) (c.writer {}) := by
  have initial : c.initial? = some shared := (initial?_of_steps registered built).trans last
  obtain ⟨uri, named, -⟩ := c.initial_named shared initial
  have found : c.externals.lookup uri = some shared := by
    rw [lookup_of_steps registered built, last]
    simp [Option.filter, named]
  have known : c.external uri = .ok shared := by rw [Codec.external, found]
  refine ⟨uri, named, known, fun fit => Codec.exists_names initial named fit version, ?_⟩
  intro cause failure
  apply Writer.perform_startDocument_of_failure {} _ version
  rw [Codec.initialUri?_eq_some initial named, Item.failure?_emitTables, failure]

/-- Another vocabulary that is provided under the same URI is not found; and a codec that starts
from a vocabulary without a name is built, but starts no document. -/
theorem names_of_build_oneElement :
    (∃ b c, ofSteps [.startFrom (.unfilled "urn:two"), .startFrom Session.oneElement,
        .provide (.unfilled "urn:one")] = .ok b ∧ b.build = .ok c ∧
      c.external "urn:one" = .ok Session.oneElement ∧
      ∃ w, Writer.writeEmpty c { version := some "1.0" } (c.writer {}) = .ok () w ∧
        c.Names { version := some "1.0" } Session.oneElement "urn:one"
          w.sink.written.toList) ∧
    ∃ b c, ofSteps [.startFrom (.unfilled "")] = .ok b ∧ b.build = .ok c ∧
      Writer.perform c (.startDocument {}) (c.writer {}) =
        .error (.format .emptyValue) (c.writer {}) := by
  constructor
  · refine ⟨_, _, rfl, rfl, ?_⟩
    obtain ⟨uri, named, found, starts, -⟩ := names_of_build
      [.startFrom (.unfilled "urn:two"), .startFrom Session.oneElement,
        .provide (.unfilled "urn:one")]
      _ _ Session.oneElement { version := some "1.0" } rfl rfl rfl
      (by rintro text ⟨⟩; decide)
    cases named
    exact ⟨found, starts rfl⟩
  · refine ⟨_, _, rfl, rfl, ?_⟩
    obtain ⟨uri, named, -, -, refuses⟩ := names_of_build [.startFrom (.unfilled "")]
      _ _ (.unfilled "") {} rfl rfl rfl nofun
    cases named
    exact refuses _ rfl

end CodecBuilder

end BinaryXml
