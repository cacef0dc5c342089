import BinaryXml.Proofs.DecodedDocuments

/-!
# Documents end where they say

A reader that is given octets takes a certain number of them, and nothing behind these has a say in
what it returns. With fewer octets it runs into their end and tells where that is. Both properties
are kept when readers are put together, and so a document tells by itself where it ends: it cannot
be cut short, and nothing can be put behind it.
-/

namespace BinaryXml

/-- Causes of failure among which is that the octets have come to an end. -/
class TellsEnd (ε : Type) where
  ended : (offset : Nat) → ε

instance : TellsEnd FormatError := ⟨.unexpectedEnd⟩

instance : TellsEnd CodecError := ⟨fun offset => .format (.unexpectedEnd offset)⟩

section Delimitation

variable {ε α β : Type} [TellsEnd ε]

/-- The reader gets `a` from the octets `taken`, and from no fewer. -/
structure Delimits (p : EStateM ε Input α) (taken : Octets) (a : α) : Prop where
  yields : Yields p taken a
  ends : ∀ front, front <+: taken → front ≠ taken → ∀ offset,
    ∃ i, p ⟨front, offset⟩ = .error (TellsEnd.ended (offset + front.length)) i

/-- Wherever the reader succeeds, it needed exactly the octets that it took. -/
def SelfDelimiting (p : EStateM ε Input α) : Prop :=
  ∀ i a i', p i = .ok a i' → ∃ taken, i.rest = taken ++ i'.rest ∧ Delimits p taken a

/-- Of octets that are cut short, the first part is, or else the second one behind a whole first. -/
theorem cut_append {front first second : Octets} (isPrefix : front <+: first ++ second)
    (short : front ≠ first ++ second) :
    (front <+: first ∧ front ≠ first) ∨
      ∃ more, front = first ++ more ∧ more <+: second ∧ more ≠ second := by
  by_cases whole : first <+: front
  · obtain ⟨more, rfl⟩ := whole
    refine .inr ⟨more, rfl, (List.prefix_append_right_inj first).1 isPrefix, ?_⟩
    intro same
    exact short (by rw [same])
  · rcases List.prefix_or_prefix_of_prefix isPrefix (List.prefix_append first second) with
      inside | behind
    · refine .inl ⟨inside, ?_⟩
      intro same
      exact whole (same ▸ List.prefix_refl front)
    · exact absurd behind whole

theorem delimits_pure (a : α) : Delimits (pure a : EStateM ε Input α) [] a where
  yields := yields_pure a
  ends _ isPrefix short := absurd (List.prefix_nil.1 isPrefix) short

theorem Delimits.bind {p : EStateM ε Input α} {f : α → EStateM ε Input β} {first second : Octets}
    {a : α} {b : β} (h : Delimits p first a) (h' : Delimits (f a) second b) :
    Delimits (p >>= f) (first ++ second) b where
  yields := h.yields.bind.yields h'.yields
  ends front isPrefix short offset := by
    rcases cut_append isPrefix short with ⟨isPrefix, short⟩ | ⟨more, rfl, isPrefix, short⟩
    · obtain ⟨i, failed⟩ := h.ends front isPrefix short offset
      exact ⟨i, bind_of_error failed⟩
    · obtain ⟨i, failed⟩ := h'.ends more isPrefix short (offset + first.length)
      refine ⟨i, ?_⟩
      rw [bind_of_ok (h.yields.ok more offset), failed, List.length_append, Nat.add_assoc]

theorem selfDelimiting_pure (a : α) : SelfDelimiting (pure a : EStateM ε Input α) := by
  intro i b i' ok
  cases ok
  exact ⟨[], rfl, delimits_pure a⟩

theorem selfDelimiting_throw (cause : ε) : SelfDelimiting (throw cause : EStateM ε Input α) := by
  intro i a i' ok
  cases ok

theorem SelfDelimiting.bind {p : EStateM ε Input α} {f : α → EStateM ε Input β}
    (hp : SelfDelimiting p) (hf : ∀ a, SelfDelimiting (f a)) : SelfDelimiting (p >>= f) := by
  intro i b i' ok
  obtain ⟨a, j, done, rest⟩ := bind_eq_ok ok
  obtain ⟨first, split, delimits⟩ := hp i a j done
  obtain ⟨second, split', delimits'⟩ := hf a j b i' rest
  refine ⟨first ++ second, ?_, delimits.bind delimits'⟩
  rw [split, split', List.append_assoc]

theorem SelfDelimiting.map {p : EStateM ε Input α} (h : SelfDelimiting p) (f : α → β) :
    SelfDelimiting (f <$> p) :=
  h.bind fun a => selfDelimiting_pure (f a)

theorem selfDelimiting_ite {c : Prop} [Decidable c] {p q : EStateM ε Input α}
    (hp : SelfDelimiting p) (hq : SelfDelimiting q) : SelfDelimiting (if c then p else q) := by
  split
  · exact hp
  · exact hq

end Delimitation

/-! ## Octets and numbers -/

namespace Parser

theorem selfDelimiting_octet : SelfDelimiting octet := by
  intro i o i' ok
  unfold octet at ok
  split at ok
  · cases ok
  · next split =>
      cases ok
      refine ⟨[o], split, yields_octet o, ?_⟩
      intro front isPrefix short offset
      have none : front = [] := by
        rcases List.prefix_cons_iff.1 isPrefix with none | ⟨more, same, isPrefix'⟩
        · exact none
        · rw [List.prefix_nil.1 isPrefix'] at same
          exact absurd same short
      rw [none]
      exact ⟨_, rfl⟩

theorem selfDelimiting_slice (count : Nat) : SelfDelimiting (slice count) := by
  intro i octets i' ok
  unfold slice at ok
  dsimp only at ok
  split at ok
  · next enough =>
      cases ok
      have yields := yields_slice (i.rest.take count)
      rw [enough] at yields
      refine ⟨i.rest.take count, (List.take_append_drop count i.rest).symm, yields, ?_⟩
      intro front isPrefix short offset
      have fewer : front.length < count := by
        rw [← enough]
        apply Nat.lt_of_le_of_ne isPrefix.length_le
        intro same
        exact short (isPrefix.eq_of_length same)
      have cut : (front.take count).length ≠ count := by
        rw [List.length_take]
        omega
      unfold slice
      dsimp only
      rw [if_neg cut]
      exact ⟨_, rfl⟩
  · cases ok

theorem selfDelimiting_octets (count : Nat) : SelfDelimiting (octets count) := by
  induction count with
  | zero => exact selfDelimiting_pure _
  | succ count ih =>
      exact selfDelimiting_octet.bind fun _ => ih.bind fun _ => selfDelimiting_pure _

theorem selfDelimiting_unexpected {α : Type} (octet : UInt8) (context : String) :
    SelfDelimiting (unexpected octet context : Parser α) := by
  intro i a i' ok
  cases ok

theorem selfDelimiting_text (encoding : CharacterEncoding) (octets : Octets) :
    SelfDelimiting (text encoding octets) := by
  unfold text ofExcept
  split
  · exact selfDelimiting_pure _
  · exact selfDelimiting_throw _

end Parser

namespace Ladder

variable (l : Ladder) (first : UInt8)

theorem selfDelimiting_read {readTail : Nat → Parser Octets}
    (tails : ∀ n, SelfDelimiting (readTail n)) : SelfDelimiting (l.read readTail first) := by
  unfold read
  split
  · exact Parser.selfDelimiting_unexpected _ _
  · exact (tails _).bind fun _ => selfDelimiting_pure _

theorem selfDelimiting_readIndex : SelfDelimiting (l.readIndex first) :=
  l.selfDelimiting_read first Parser.selfDelimiting_octets

theorem selfDelimiting_readString : SelfDelimiting (l.readString first) :=
  (l.selfDelimiting_read first Parser.selfDelimiting_slice).bind Parser.selfDelimiting_slice

end Ladder

/-! ## Representations -/

namespace Representation

theorem selfDelimiting_readIdentifying : SelfDelimiting readIdentifying := by
  apply Parser.selfDelimiting_octet.bind
  intro first
  apply selfDelimiting_ite
  · exact (Ladder.selfDelimiting_readString _ _).bind fun _ =>
      (Parser.selfDelimiting_text _ _).bind fun _ => selfDelimiting_pure _
  · exact (Ladder.selfDelimiting_readIndex _ _).bind fun _ => selfDelimiting_pure _

theorem selfDelimiting_readInManner (l : Ladder) (first : UInt8) :
    SelfDelimiting (readInManner l first) := by
  unfold readInManner
  dsimp only
  split
  · exact (l.selfDelimiting_readString _).bind fun _ =>
      (Parser.selfDelimiting_text _ _).bind fun _ => selfDelimiting_pure _
  · exact Parser.selfDelimiting_octet.bind fun _ =>
      (l.selfDelimiting_readString _).bind fun _ => selfDelimiting_pure _

theorem selfDelimiting_readNonIdentifying : SelfDelimiting readNonIdentifying := by
  apply Parser.selfDelimiting_octet.bind
  intro first
  apply selfDelimiting_ite (selfDelimiting_pure _)
  apply selfDelimiting_ite
  · exact (Ladder.selfDelimiting_readIndex _ _).bind fun _ => selfDelimiting_pure _
  · exact selfDelimiting_readInManner _ _

theorem selfDelimiting_readChunk (first : UInt8) : SelfDelimiting (readChunk first) := by
  apply selfDelimiting_ite (Parser.selfDelimiting_unexpected _ _)
  apply selfDelimiting_ite
  · exact (Ladder.selfDelimiting_readIndex _ _).bind fun _ => selfDelimiting_pure _
  · exact selfDelimiting_readInManner _ _

end Representation

namespace NameRepresentation

theorem selfDelimiting_readPart (isPresent : Bool) : SelfDelimiting (readPart isPresent) :=
  selfDelimiting_ite (Representation.selfDelimiting_readIdentifying.map _) (selfDelimiting_pure _)

theorem selfDelimiting_readOptionalParts (first : UInt8) :
    SelfDelimiting (readOptionalParts first) := by
  apply selfDelimiting_ite (selfDelimiting_throw _)
  exact (selfDelimiting_readPart _).bind fun _ =>
    (selfDelimiting_readPart _).bind fun _ => selfDelimiting_pure _

theorem selfDelimiting_readParts (first : UInt8) : SelfDelimiting (readParts first) :=
  (selfDelimiting_readOptionalParts _).bind fun _ =>
    Representation.selfDelimiting_readIdentifying.bind fun _ => selfDelimiting_pure _

theorem selfDelimiting_readElement (first : UInt8) : SelfDelimiting (readElement first) := by
  apply selfDelimiting_ite
  · exact (Ladder.selfDelimiting_readIndex _ _).bind fun _ => selfDelimiting_pure _
  · exact selfDelimiting_ite (selfDelimiting_readParts _) (Parser.selfDelimiting_unexpected _ _)

theorem selfDelimiting_readAttribute (first : UInt8) : SelfDelimiting (readAttribute first) := by
  apply selfDelimiting_ite (selfDelimiting_readParts _)
  apply selfDelimiting_ite
  · exact (Ladder.selfDelimiting_readIndex _ _).bind fun _ => selfDelimiting_pure _
  · exact Parser.selfDelimiting_unexpected _ _

end NameRepresentation

theorem NamespaceAttribute.selfDelimiting_read (first : UInt8) : SelfDelimiting (read first) :=
  selfDelimiting_ite (Parser.selfDelimiting_unexpected _ _)
    ((NameRepresentation.selfDelimiting_readOptionalParts _).bind fun _ => selfDelimiting_pure _)

theorem Components.selfDelimiting_read : SelfDelimiting read := by
  apply (Parser.selfDelimiting_slice _).bind
  intro found
  apply selfDelimiting_ite (selfDelimiting_throw _)
  apply Parser.selfDelimiting_octet.bind
  intro flags
  split
  · exact selfDelimiting_pure _
  · exact selfDelimiting_throw _

/-! ## Steps of a decoder -/

namespace Reading

variable {α : Type}

theorem selfDelimiting_ofParser {p : Parser α} (h : SelfDelimiting p) :
    SelfDelimiting (ofParser p) := by
  intro i a i' ok
  obtain ⟨taken, split, delimits⟩ := h i a i' (eq_ok_of_ofParser ok)
  refine ⟨taken, split, yields_ofParser delimits.yields, ?_⟩
  intro front isPrefix short offset
  obtain ⟨j, failed⟩ := delimits.ends front isPrefix short offset
  refine ⟨j, ?_⟩
  rw [ofParser, failed]
  rfl

theorem selfDelimiting_ofExcept (r : Except CodecError α) : SelfDelimiting (ofExcept r) := by
  cases r with
  | ok a => exact selfDelimiting_pure a
  | error cause => exact selfDelimiting_throw cause

theorem selfDelimiting_unexpected (first : UInt8) (context : String) :
    SelfDelimiting (ofParser (Parser.unexpected first context : Parser α)) :=
  selfDelimiting_ofParser (Parser.selfDelimiting_unexpected _ _)

theorem selfDelimiting_nonIdentifying :
    SelfDelimiting (ofParser Representation.readNonIdentifying) :=
  selfDelimiting_ofParser Representation.selfDelimiting_readNonIdentifying

end Reading

namespace Decoder

open Reading

variable (c : Codec) (v : Vocabulary) (depth : Nat) (first : UInt8)

theorem selfDelimiting_readName (attributed : Bool) (declarations : List NamespaceDeclaration) :
    SelfDelimiting (readName v depth attributed declarations first) := by
  apply (selfDelimiting_ofParser (NameRepresentation.selfDelimiting_readElement first)).bind
  intro representation
  apply (selfDelimiting_ofExcept _).bind
  intro named
  exact selfDelimiting_ite (selfDelimiting_pure _) (selfDelimiting_pure _)

theorem selfDelimiting_readComment : SelfDelimiting (readComment c v depth) :=
  selfDelimiting_nonIdentifying.bind fun _ =>
    (selfDelimiting_ofExcept _).bind fun _ => selfDelimiting_pure _

theorem selfDelimiting_readInstruction : SelfDelimiting (readInstruction c v depth) :=
  (selfDelimiting_ofParser Representation.selfDelimiting_readIdentifying).bind fun _ =>
    (selfDelimiting_ofExcept _).bind fun _ =>
      selfDelimiting_nonIdentifying.bind fun _ =>
        (selfDelimiting_ofExcept _).bind fun _ => selfDelimiting_pure _

theorem selfDelimiting_readCharacters : SelfDelimiting (readCharacters c v depth first) :=
  (selfDelimiting_ofParser (Representation.selfDelimiting_readChunk first)).bind fun _ =>
    (selfDelimiting_ofExcept _).bind fun _ => selfDelimiting_pure _

theorem selfDelimiting_readItem : SelfDelimiting (readItem c v depth first) := by
  unfold readItem
  split
  · exact selfDelimiting_pure _
  split
  · cases depth with
    | zero => exact selfDelimiting_unexpected _ _
    | succ depth => exact selfDelimiting_pure _
  split
  · exact selfDelimiting_readInstruction c v depth
  split
  · exact selfDelimiting_readComment c v depth
  split
  · exact selfDelimiting_ite (selfDelimiting_pure _) (selfDelimiting_readName _ _ _ _ _)
  split
  · exact selfDelimiting_readCharacters c v depth first
  · exact selfDelimiting_unexpected _ _

theorem selfDelimiting_readDeclaration (attributed : Bool) (declared : List NamespaceDeclaration) :
    SelfDelimiting (readDeclaration v depth attributed declared first) := by
  apply selfDelimiting_ite
  · apply (selfDelimiting_ofParser Parser.selfDelimiting_octet).bind
    intro octet
    exact selfDelimiting_ite (selfDelimiting_unexpected _ _) (selfDelimiting_readName _ _ _ _ _)
  · exact (selfDelimiting_ofParser (NamespaceAttribute.selfDelimiting_read first)).bind fun _ =>
      (selfDelimiting_ofExcept _).bind fun _ => selfDelimiting_pure _

theorem selfDelimiting_readAttribute (tag : Tag) :
    SelfDelimiting (readAttribute c v depth tag first) := by
  apply selfDelimiting_ite (selfDelimiting_pure _)
  apply selfDelimiting_ite (selfDelimiting_pure _)
  exact (selfDelimiting_ofParser (NameRepresentation.selfDelimiting_readAttribute first)).bind
    fun _ => (selfDelimiting_ofExcept _).bind fun _ =>
      selfDelimiting_nonIdentifying.bind fun _ =>
        (selfDelimiting_ofExcept _).bind fun _ => selfDelimiting_pure _

theorem selfDelimiting_step (s : State) : SelfDelimiting (step c s) := by
  apply (selfDelimiting_ofParser Parser.selfDelimiting_octet).bind
  intro first
  obtain ⟨v, depth, phase⟩ := s
  cases phase with
  | children => exact selfDelimiting_readItem c v depth first
  | declarations attributed declared =>
      exact selfDelimiting_readDeclaration v depth first attributed declared
  | attributes tag => exact selfDelimiting_readAttribute c v depth first tag
  | ended => exact selfDelimiting_pure _

/-! ## Documents -/

theorem selfDelimiting_readTables (isNamed : Bool) : SelfDelimiting (readTables c isNamed) := by
  cases isNamed with
  | false => exact selfDelimiting_pure _
  | true =>
      apply (selfDelimiting_ofParser _).bind
      · intro uri
        split
        · exact selfDelimiting_pure _
        · exact selfDelimiting_throw _
      · apply Parser.selfDelimiting_octet.bind
        intro first
        apply Parser.selfDelimiting_octet.bind
        intro second
        apply selfDelimiting_ite (Parser.selfDelimiting_unexpected _ _)
        apply Parser.selfDelimiting_octet.bind
        intro octet
        apply selfDelimiting_ite (Parser.selfDelimiting_unexpected _ _)
        exact (Ladder.selfDelimiting_readString _ _).bind fun _ => Parser.selfDelimiting_text _ _

theorem selfDelimiting_readStandalone? (isPresent : Bool) :
    SelfDelimiting (readStandalone? isPresent) := by
  apply selfDelimiting_ite
  · apply SelfDelimiting.map
    apply Parser.selfDelimiting_octet.bind
    intro octet
    apply selfDelimiting_ite (selfDelimiting_pure _)
    exact selfDelimiting_ite (selfDelimiting_pure _) (Parser.selfDelimiting_unexpected _ _)
  · exact selfDelimiting_pure _

theorem selfDelimiting_readHeader : SelfDelimiting (readHeader c) := by
  apply (selfDelimiting_ofParser Components.selfDelimiting_read).bind
  intro components
  apply (selfDelimiting_readTables c _).bind
  intro tables
  apply (selfDelimiting_ofParser (selfDelimiting_readStandalone? _)).bind
  intro standalone
  apply selfDelimiting_ite
  · exact selfDelimiting_nonIdentifying.bind fun _ =>
      (selfDelimiting_ofExcept _).bind fun _ => selfDelimiting_pure _
  · exact selfDelimiting_pure _

theorem run_of_error {s : State} {events : Array Event} {i i' : Input} {cause : CodecError}
    (h : step c s i = .error cause i') : run c s events i = .error cause := by
  rw [run]
  split
  · next failed =>
      rw [h] at failed
      cases failed
      rfl
  · next ok =>
      rw [h] at ok
      cases ok

variable {c}

/-- A run takes the octets of its steps, and stops at the step that lacks some of them. -/
theorem delimited_of_run {s : State} {before after : Array Event} {i : Input} {rest : Octets}
    (h : run c s before i = .ok (after, rest)) :
    ∃ taken, i.rest = taken ++ rest ∧
      (∀ more offset, run c s before ⟨taken ++ more, offset⟩ = .ok (after, more)) ∧
      ∀ front, front <+: taken → front ≠ taken → ∀ offset,
        run c s before ⟨front, offset⟩ =
          .error (.format (.unexpectedEnd (offset + front.length))) := by
  fun_induction run c s before i with
  | case1 => cases h
  | case2 s before i completed s' i' ok ended =>
      cases h
      obtain ⟨taken, split, delimits⟩ := selfDelimiting_step c s i _ i' ok
      refine ⟨taken, split, ?_, ?_⟩
      · intro more offset
        rw [run_of_step (delimits.yields.ok more offset), ended]
      · intro front isPrefix short offset
        obtain ⟨j, failed⟩ := delimits.ends front isPrefix short offset
        exact run_of_error c failed
  | case3 s before i completed s' i' ok going ih =>
      obtain ⟨taken, split, delimits⟩ := selfDelimiting_step c s i _ i' ok
      obtain ⟨later, split', goesOn, stops⟩ := ih h
      have on (more : Octets) (offset : Nat) : run c s before ⟨taken ++ more, offset⟩ =
          run c s' (before.appendList completed) ⟨more, offset + taken.length⟩ := by
        rw [run_of_step (delimits.yields.ok more offset)]
        split
        · next ended => exact absurd ended going
        · rfl
      refine ⟨taken ++ later, ?_, ?_, ?_⟩
      · rw [split, split', List.append_assoc]
      · intro more offset
        rw [List.append_assoc, on, goesOn]
      · intro front isPrefix short offset
        rcases cut_append isPrefix short with ⟨isPrefix, short⟩ | ⟨more, rfl, isPrefix, short⟩
        · obtain ⟨j, failed⟩ := delimits.ends front isPrefix short offset
          exact run_of_error c failed
        · rw [on, stops more isPrefix short, List.length_append, Nat.add_assoc]

end Decoder

namespace Codec

open Decoder

/-- Less than a document is missing its end, and more than one has octets left over. -/
theorem cut_or_extended_of_decode (c : Codec) (document : Octets) (events : List Event)
    (decoded : c.decode document = .ok events) :
    (∀ front, front <+: document → front ≠ document →
      c.decode front = .error (.format (.unexpectedEnd front.length))) ∧
    ∀ more, more ≠ [] →
      c.decode (document ++ more) = .error (.format (.trailingOctets more.length)) := by
  obtain ⟨header, v, i, after, read, ran, rfl⟩ := decode_eq_ok decoded
  obtain ⟨taken, split, header_delimits⟩ := selfDelimiting_readHeader c _ _ _ read
  obtain ⟨later, split', goesOn, stops⟩ := delimited_of_run ran
  dsimp only at split
  rw [split', List.append_nil] at split
  subst split
  refine ⟨?_, ?_⟩
  · intro front isPrefix short
    unfold decode
    rcases cut_append isPrefix short with ⟨isPrefix, short⟩ | ⟨more, rfl, isPrefix, short⟩
    · obtain ⟨j, failed⟩ := header_delimits.ends front isPrefix short 0
      rw [failed, Nat.zero_add]
      rfl
    · rw [header_delimits.yields.ok more 0]
      dsimp only
      rw [stops more isPrefix short, List.length_append, Nat.zero_add]
  · intro more nonempty
    unfold decode
    rw [List.append_assoc, header_delimits.yields.ok (later ++ more) 0]
    dsimp only
    rw [goesOn]
    dsimp only
    rw [if_neg (by simpa using nonempty)]

/-- A document with one element: without its last octet it is not ended, and a terminator behind
it is one too many. -/
theorem cut_or_extended_of_decode_oneElement :
    ({} : Codec).decode [0xE0, 0x00, 0x00, 0x01, 0x00, 0x3C, 0x00, 0x61, 0xFF] =
        .ok [.startDocument {}, .startElement { localName := "a" } [] [], .endElement,
          .endDocument] ∧
      ({} : Codec).decode [0xE0, 0x00, 0x00, 0x01, 0x00, 0x3C, 0x00] =
        .error (.format (.unexpectedEnd 7)) ∧
      ({} : Codec).decode [0xE0, 0x00, 0x00, 0x01, 0x00, 0x3C, 0x00, 0x61, 0xFF, 0xF0] =
        .error (.format (.trailingOctets 1)) := by
  obtain ⟨cut, extended⟩ := cut_or_extended_of_decode {} _ _ decode_oneElement
  refine ⟨decode_oneElement, cut _ ?_ (by decide), extended [0xF0] (by decide)⟩
  exact ⟨[0x61, 0xFF], rfl⟩

end Codec

end BinaryXml
