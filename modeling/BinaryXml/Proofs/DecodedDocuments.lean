import BinaryXml.Proofs.DecodedNesting
import BinaryXml.Proofs.DecoderProgress
import BinaryXml.Proofs.ElementRoundTrip
import BinaryXml.Proofs.FreshItems
import BinaryXml.Proofs.HeaderRoundTrip

/-!
# Decoded documents are well formed

Octets that decode may come from anywhere. Still the events are those of one document with nested
elements, and all names in it are proper unless the document starts from a vocabulary that was
supplied from outside.
-/

namespace BinaryXml

namespace Decoder

variable {c : Codec} {v : Vocabulary}

/-- What was read of an element so far is proper. -/
def Phase.IsProper : Phase → Prop
  | .children => True
  | .declarations _ declared => ∀ d ∈ declared, d.IsProper
  | .attributes tag => tag.event.IsProper
  | .ended => True

structure State.IsProper (s : State) : Prop where
  vocabulary : s.vocabulary.IsProper
  phase : s.phase.IsProper

/-- A step that completes proper events and leads to a proper state. -/
structure ProperStep (r : List Event × State) : Prop where
  events : ∀ event ∈ r.1, event.IsProper
  state : r.2.IsProper

/-- Where the name of an element may stand, the declarations in front of it are proper. -/
theorem Phase.IsProper.begins {phase : Phase} {ds : List NamespaceDeclaration} (h : phase.IsProper)
    (begins : phase.Begins ds) : ∀ d ∈ ds, d.IsProper := by
  cases begins with
  | bare => nofun
  | declared attributed declared => exact fun d mem => h d (List.mem_reverse.1 mem)

theorem properStep_single {event : Event} {depth : Nat} (isProper : event.IsProper)
    (proper : v.IsProper) : ProperStep ([event], { vocabulary := v, depth }) where
  events := List.forall_mem_singleton.2 isProper
  state := ⟨proper, trivial⟩

/-- The tables of a proper state stand for proper names only. -/
theorem properStep_of_moves {s : State} {r : List Event × State} (proper : s.IsProper)
    (h : Moves c s r) : ProperStep r := by
  obtain ⟨tables, inPhase⟩ := proper
  cases h with
  | stop => exact properStep_single trivial tables
  | finish => exact ⟨List.forall_mem_singleton.2 trivial, tables, trivial⟩
  | stopTwice | stopAndFinish =>
      refine ⟨?_, tables, trivial⟩
      exact List.forall_mem_cons.2 ⟨trivial, List.forall_mem_singleton.2 trivial⟩
  | instruction literal named resolved =>
      have both := Vocabulary.resolvePart_proper named tables rfl fun r' is => by
        cases is
        exact literal
      have proper' := Vocabulary.resolveText_proper resolved both.1 rfl
      exact properStep_single (both.2.2 rfl) proper'
  | comment resolved =>
      exact properStep_single trivial (Vocabulary.resolveText_proper resolved tables rfl)
  | characters inside filled resolved =>
      exact properStep_single trivial (Vocabulary.resolveContent_proper resolved tables rfl)
  | declarations => exact ⟨nofun, tables, nofun⟩
  | declaration literals resolved =>
      have both := Vocabulary.resolveDeclaration_proper resolved tables literals
      exact ⟨nofun, both.2, List.forall_mem_cons.2 ⟨both.1, inPhase⟩⟩
  | name begins literals resolved =>
      have both := Vocabulary.resolveName_proper resolved tables literals
      exact ⟨nofun, both.2, both.1, inPhase.begins begins, nofun⟩
  | element begins literals resolved =>
      have both := Vocabulary.resolveName_proper resolved tables literals
      exact properStep_single ⟨both.1, inPhase.begins begins, nofun⟩ both.2
  | attributed literals named filled resolved =>
      have both := Vocabulary.resolveName_proper named tables literals
      have proper' := Vocabulary.resolveContent_proper resolved both.2 rfl
      obtain ⟨name, declarations, attributes⟩ := inPhase
      refine ⟨nofun, proper', name, declarations, ?_⟩
      intro a mem
      rcases List.mem_cons.1 (List.mem_reverse.1 mem) with rfl | old
      · exact both.1
      · exact attributes a (List.mem_reverse.2 old)
  | tag => exact properStep_single inPhase tables
  | emptyTag =>
      refine ⟨?_, tables, trivial⟩
      exact List.forall_mem_cons.2 ⟨inPhase, List.forall_mem_singleton.2 trivial⟩
  | ended => exact ⟨nofun, tables, inPhase⟩

/-! ## Runs -/

/-- What every step keeps of the state, and has of the events that it completes, all events of a
run have. -/
theorem forall_of_run {A : State → Prop} {P : Event → Prop}
    (each : ∀ s r, A s → Moves c s r → (∀ event ∈ r.1, P event) ∧ A r.2) {s : State}
    {before after : Array Event} {i : Input} {rest : Octets}
    (h : run c s before i = .ok (after, rest)) (begun : A s)
    (started : ∀ event ∈ before.toList, P event) : ∀ event ∈ after.toList, P event := by
  fun_induction run c s before i with
  | case1 => cases h
  | case2 s before i completed s' i' ok ended =>
      cases h
      have done := (each s _ begun (moves_of_step i _ i' ok)).1
      simpa [or_imp, forall_and] using And.intro started done
  | case3 s before i completed s' i' ok going ih =>
      obtain ⟨done, kept⟩ := each s _ begun (moves_of_step i _ i' ok)
      refine ih h kept ?_
      simpa [or_imp, forall_and] using And.intro started done

theorem proper_of_run {s : State} {before after : Array Event} {i : Input} {rest : Octets}
    (h : run c s before i = .ok (after, rest)) (proper : s.IsProper)
    (started : ∀ event ∈ before.toList, event.IsProper) :
    ∀ event ∈ after.toList, event.IsProper := by
  refine forall_of_run (fun s r proper moves => ?_) h proper started
  obtain ⟨events, state⟩ := properStep_of_moves proper moves
  exact ⟨events, state⟩

/-! ## The header -/

/-- The flags behind the identification announce an initial vocabulary, which can only be an
external one. -/
def NamesVocabulary (octets : Octets) : Prop :=
  ∃ flags, octets[identification.length]? = some flags ∧ flags &&& 0x20 ≠ 0

theorem namesVocabulary_of_read {octets : Octets} {components : Components} {i : Input}
    (h : Components.read ⟨octets, 0⟩ = .ok components i) (named : components.vocabulary = true) :
    NamesVocabulary octets := by
  obtain ⟨found, j, sliced, h⟩ := bind_eq_ok h
  unfold Parser.slice at sliced
  dsimp only at sliced
  split at sliced
  case isFalse => cases sliced
  cases sliced
  split at h
  · cases h
  obtain ⟨flags, k, first, h⟩ := bind_eq_ok h
  unfold Parser.octet at first
  dsimp only at first
  split at first
  · cases first
  · next behind =>
      cases first
      cases known : Components.ofFlags? flags with
      | none => rw [known] at h; cases h
      | some announced =>
          rw [known] at h
          cases h
          refine ⟨flags, ?_, ?_⟩
          · rw [← List.head?_drop, behind]
            rfl
          · unfold Components.ofFlags? at known
            split at known <;> cases known
            exact of_decide_eq_true named

/-- The header that was read names no vocabulary, and all names in the tables are proper. -/
structure IsPlain (read : DocumentHeader × Vocabulary) : Prop where
  unnamed : read.1.externalVocabulary = none
  proper : read.2.IsProper

theorem isPlain_of_readHeader {octets : Octets} {header : DocumentHeader} {i : Input}
    (h : readHeader c ⟨octets, 0⟩ = .ok (header, v) i) (unnamed : ¬NamesVocabulary octets) :
    IsPlain (header, v) := by
  obtain ⟨components, j, read, h⟩ := bind_eq_ok h
  have plain : Components.read ⟨octets, 0⟩ = .ok components j := Reading.eq_ok_of_ofParser read
  have none : components.vocabulary = false :=
    Bool.eq_false_iff.2 fun named => unnamed (namesVocabulary_of_read plain named)
  -- Without a name the tables start as the standard ones; only the version is entered then, which
  -- names nothing.
  rw [none] at h
  obtain ⟨⟨uri, u⟩, k, tables, h⟩ := bind_eq_ok h
  cases tables
  obtain ⟨standalone, k', -, h⟩ := bind_eq_ok h
  by_cases versioned : components.version = true
  · rw [if_pos versioned] at h
    obtain ⟨representation, l, -, h⟩ := bind_eq_ok h
    obtain ⟨⟨version, v'⟩, l', resolved, h⟩ := bind_eq_ok h
    cases h
    have resolved := Reading.ensures_ofExcept_eq _ _ _ _ resolved
    exact ⟨rfl, Vocabulary.resolveText_proper resolved Vocabulary.isProper_standard rfl⟩
  · rw [if_neg versioned] at h
    cases h
    exact ⟨rfl, Vocabulary.isProper_standard⟩

theorem proper_of_readHeader {octets : Octets} {header : DocumentHeader} {i : Input}
    (h : readHeader c ⟨octets, 0⟩ = .ok (header, v) i) (unnamed : ¬NamesVocabulary octets) :
    v.IsProper :=
  (isPlain_of_readHeader h unnamed).proper

end Decoder

/-! ## Documents -/

namespace Codec

open Decoder

/-- Nested events are neither the start nor the end of a document. -/
theorem not_document_of_items {inside : Bool} {events : List Event}
    (h : eventNesting.Items inside events) :
    ∀ event ∈ events, (∀ header, event ≠ .startDocument header) ∧ event ≠ .endDocument := by
  induction h with
  | nil => simp
  | @leaf inside event rest isLeaf _ ih =>
      refine List.forall_mem_cons.2 ⟨?_, ih⟩
      cases event with
      | startDocument | endDocument => cases inside <;> exact isLeaf.elim
      | _ => exact ⟨nofun, nofun⟩
  | @element inside first inner rest isStart _ _ inner_ih rest_ih =>
      obtain ⟨name, declarations, attributes, rfl⟩ := isStart
      intro event mem
      simp only [List.cons_append, List.nil_append, List.mem_cons, List.mem_append] at mem
      rcases mem with rfl | within | rfl | later
      · exact ⟨nofun, nofun⟩
      · exact inner_ih event within
      · exact ⟨nofun, nofun⟩
      · exact rest_ih event later

theorem decode_eq_ok {c : Codec} {octets : Octets} {events : List Event}
    (h : c.decode octets = .ok events) :
    ∃ header v i after, readHeader c ⟨octets, 0⟩ = .ok (header, v) i ∧
      run c { vocabulary := v } #[.startDocument header] i = .ok (after, []) ∧
      events = after.toList := by
  unfold decode at h
  split at h
  · cases h
  · next header v i read =>
      split at h
      · cases h
      · next after rest ran =>
          split at h
          · next none =>
              cases h
              rw [List.isEmpty_iff.1 none] at ran
              exact ⟨header, v, i, after, read, ran, rfl⟩
          · cases h

/-- What decodes is one document with nested elements and characters inside of elements only. If
it names no vocabulary, all its names are proper. -/
theorem wellFormed_of_decode (c : Codec) (octets : Octets) (events : List Event)
    (decoded : c.decode octets = .ok events) :
    ∃ header body, events = .startDocument header :: body ++ [.endDocument] ∧
      eventNesting.Items false body ∧
      (∀ event ∈ body, (∀ header, event ≠ .startDocument header) ∧ event ≠ .endDocument) ∧
      (¬NamesVocabulary octets → ∀ event ∈ body, event.IsProper) := by
  obtain ⟨header, v, i, after, read, ran, rfl⟩ := decode_eq_ok decoded
  obtain ⟨events, all, body, closing, rfl⟩ := expects_of_run ran
  have items : eventNesting.Items false body := Nesting.items_of_closing closing
  refine ⟨header, body, all, items, not_document_of_items items, fun unnamed => ?_⟩
  have proper : State.IsProper { vocabulary := v } := ⟨proper_of_readHeader read unnamed, trivial⟩
  intro event mem
  refine proper_of_run ran proper (by simp [Event.IsProper]) event ?_
  rw [all]
  simp [mem]

/-- The reader is inside of an element whose name is new. -/
theorem arrives_oneElement :
    ∃ v, Arrives {} [0xE0, 0x00, 0x00, 0x01, 0x00, 0x3C, 0x00, 0x61]
      [.startDocument {}, .startElement { localName := "a" } [] []]
      { vocabulary := v, depth := 1 } := by
  let t : Tables := { vocabulary := .standard }
  have newName : (t.vocabulary.names .element).wireIndex? { localName := "a" } = none :=
    Table.wireIndex?_of_notMem List.not_mem_nil
  have newPart : (t.vocabulary.strings .localName).wireIndex? "a" = none :=
    Table.wireIndex?_of_notMem List.not_mem_nil
  have item : Item.ofName t .element (.named { localName := "a" }) =
      .ok ⟨[0x3C, 0x00, 0x61],
        [.string .localName (.literal "a" true), .name .element { localName := "a" }]⟩ := by
    have noPrefix : ({ localName := "a" } : QualifiedName).hasPrefix = false := by rfl
    have noNamespace : ({ localName := "a" } : QualifiedName).hasNamespace = false := by rfl
    simp only [Item.ofName, Item.ofNewName, Tables.identifying, newName, newPart, noPrefix,
      noNamespace, Bool.false_eq_true, if_false]
    rfl
  obtain ⟨name, ⟨⟩, read, -⟩ := yields_elementName (c := {}) item (Item.isFresh_ofName item)
  have started : Arrives {} [0xE0, 0x00, 0x00, 0x01, 0x00] [.startDocument {}]
      { vocabulary := .standard } :=
    arrives_of_header fun _ _ => rfl
  refine ⟨_, started.passes (passes_of_yields (read 0 false) fun ended => ?_)⟩
  cases ended

/-- A document with one element. -/
theorem decode_oneElement :
    ({} : Codec).decode [0xE0, 0x00, 0x00, 0x01, 0x00, 0x3C, 0x00, 0x61, 0xFF] =
      .ok [.startDocument {}, .startElement { localName := "a" } [] [], .endElement,
        .endDocument] := by
  obtain ⟨v, inside⟩ := arrives_oneElement
  exact inside.decode_of_ended (yields_doubleTerminator (yields_terminator {} v 1)) rfl

theorem wellFormed_of_decode_oneElement :
    ({} : Codec).decode [0xE0, 0x00, 0x00, 0x01, 0x00, 0x3C, 0x00, 0x61, 0xFF] =
        .ok [.startDocument {}, .startElement { localName := "a" } [] [], .endElement,
          .endDocument] ∧
      ∃ header body, [.startDocument {}, .startElement { localName := "a" } [] [], .endElement,
          .endDocument] = .startDocument header :: body ++ [Event.endDocument] ∧
        eventNesting.Items false body ∧ ∀ event ∈ body, event.IsProper := by
  obtain ⟨header, body, all, items, -, proper⟩ := wellFormed_of_decode {} _ _ decode_oneElement
  refine ⟨decode_oneElement, header, body, all, items, proper ?_⟩
  rintro ⟨flags, ⟨⟩, announced⟩
  exact absurd rfl announced

end Codec

end BinaryXml
