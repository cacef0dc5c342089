import BinaryXml.Proofs.Postconditions
import BinaryXml.Proofs.TablesInStep

/-!
# Proper names

A literal that names something is never empty, since its length is at least one, and a prefix never
comes without a namespace name. So the entries that a document makes for its names are proper, and
as long as it starts from the standard vocabulary, all names that it takes from its tables are.
-/

namespace BinaryXml

/-- The local name is there, and a prefix stands for a namespace. -/
structure QualifiedName.IsProper (name : QualifiedName) : Prop where
  localName_ne : name.localName ≠ ""
  namespaceName_ne : name.nsPrefix ≠ "" → name.namespaceName ≠ ""

def NamespaceDeclaration.IsProper (d : NamespaceDeclaration) : Prop :=
  d.nsPrefix ≠ "" → d.namespaceName ≠ ""

/-- All names in the event are proper. -/
def Event.IsProper : Event → Prop
  | .startElement name declarations attributes =>
    name.IsProper ∧ (∀ d ∈ declarations, d.IsProper) ∧ ∀ a ∈ attributes, a.name.IsProper
  | .instruction target _ => target ≠ ""
  | _ => True

/-! ## Tables of names -/

theorem Roster.toList_empty {α : Type} [DecidableEq α] [Hashable α] :
    (Roster.empty : Roster α).toList = [] := rfl

namespace Table

variable {kind : TableKind} {α : Type} [DecidableEq α] [Hashable α]

theorem mem_toList_of_get {t : Table kind α} {i : Nat} {v : α} (h : t.get i = .ok v) :
    v ∈ t.toList := by
  have position : (v, i) ∈ t.entries := mem_entries.2 (get_eq_ok.1 h)
  exact List.fst_mem_of_mem_zipIdx position

theorem mem_toList_of_enter [Shown α] {t t' : Table kind α} {v w : α} (h : t.enter v = .ok t')
    (mem : w ∈ t'.toList) : w = v ∨ w ∈ t.toList := by
  unfold enter at h
  split at h
  · cases h
    exact .inr mem
  · unfold add at h
    split at h
    · cases h
      simp only [toList, insert, Roster.toList_push, List.mem_append, List.mem_singleton] at mem ⊢
      rcases mem with base | added | new
      · exact .inr (.inl base)
      · exact .inr (.inr added)
      · exact .inl new
    · cases h

end Table

/-- The kinds of strings that only identifying strings are entered for. -/
def StringKind.identifies : StringKind → Bool
  | .nsPrefix => true
  | .namespaceName => true
  | .localName => true
  | .otherNcName => true
  | _ => false

/-- What a document can take from the tables as a name is proper. -/
structure Vocabulary.IsProper (v : Vocabulary) : Prop where
  strings_ne : ∀ kind : StringKind, kind.identifies = true → ∀ s ∈ (v.strings kind).toList, s ≠ ""
  names_proper : ∀ kind : NameKind, ∀ name ∈ (v.names kind).toList, name.IsProper

/-- A literal that could be read as an identifying string. -/
def Representation.IsProper (r : Representation) : Prop :=
  ∀ value add, r = .literal value add → value ≠ ""

/-- A prefix never stands without a namespace name. -/
structure NamespaceAttribute.IsProper (a : NamespaceAttribute) : Prop where
  nsPrefix : ∀ r ∈ a.nsPrefix, r.IsProper
  namespaceName : ∀ r ∈ a.namespaceName, r.IsProper
  together : a.nsPrefix.isSome = true → a.namespaceName.isSome = true

/-- The parts in front of a local name are like those of a declaration. -/
def NameRepresentation.IsProper : NameRepresentation → Prop
  | .indexed _ => True
  | .parts nsPrefix namespaceName localName =>
    NamespaceAttribute.IsProper ⟨nsPrefix, namespaceName⟩ ∧ localName.IsProper

namespace Vocabulary

variable {v v' : Vocabulary}

theorem strings_withStrings (v : Vocabulary) (kind : StringKind)
    (t : Table (.strings kind) String) : (v.withStrings kind t).strings kind = t := by
  cases kind <;> rfl

theorem names_withNames (v : Vocabulary) (kind : NameKind)
    (t : Table (.names kind) QualifiedName) : (v.withNames kind t).names kind = t := by
  cases kind <;> rfl

theorem names_withNames_of_ne (v : Vocabulary) {kind kind' : NameKind} (h : kind' ≠ kind)
    (t : Table (.names kind) QualifiedName) :
    (v.withNames kind t).names kind' = v.names kind' := by
  cases kind <;> cases kind' <;> first | rfl | exact absurd rfl h

@[simp] theorem strings_withNames (v : Vocabulary) (kind : NameKind)
    (t : Table (.names kind) QualifiedName) (kind' : StringKind) :
    (v.withNames kind t).strings kind' = v.strings kind' := by
  cases kind <;> cases kind' <;> rfl

theorem isProper_standard : standard.IsProper where
  strings_ne kind identifies s mem := by
    cases kind with
    | nsPrefix =>
        have same : s = "xml" := by
          simpa [standard, strings, singleEntry, Table.toList, Roster.toList_ofNodup,
            Roster.toList_empty] using mem
        rw [same]
        decide
    | namespaceName =>
        have same : s = xmlNamespace := by
          simpa [standard, strings, singleEntry, Table.toList, Roster.toList_ofNodup,
            Roster.toList_empty] using mem
        rw [same]
        decide
    | localName | otherNcName => cases mem
    | _ => cases identifies
  names_proper kind name mem := by
    cases kind <;> cases mem

theorem IsProper.withStrings (h : v.IsProper) {kind : StringKind}
    {t : Table (.strings kind) String}
    (entries : kind.identifies = true → ∀ s ∈ t.toList, s ≠ "") :
    (v.withStrings kind t).IsProper where
  strings_ne kind' identifies s mem := by
    by_cases same : kind' = kind
    · subst same
      rw [strings_withStrings] at mem
      exact entries identifies s mem
    · rw [strings_withStrings_of_ne v same] at mem
      exact h.strings_ne kind' identifies s mem
  names_proper kind' name mem := by
    rw [names_withStrings] at mem
    exact h.names_proper kind' name mem

theorem IsProper.withNames (h : v.IsProper) {kind : NameKind}
    {t : Table (.names kind) QualifiedName} (entries : ∀ name ∈ t.toList, name.IsProper) :
    (v.withNames kind t).IsProper where
  strings_ne kind' identifies s mem := by
    rw [strings_withNames] at mem
    exact h.strings_ne kind' identifies s mem
  names_proper kind' name mem := by
    by_cases same : kind' = kind
    · subst same
      rw [names_withNames] at mem
      exact entries name mem
    · rw [names_withNames_of_ne v same] at mem
      exact h.names_proper kind' name mem

end Vocabulary

/-! ## Resolving -/

theorem Table.resolveIdentifying_proper {kind : TableKind} {t t' : Table kind String}
    {r : Representation} {value : String} (h : t.resolveIdentifying r = .ok (value, t'))
    (literal : r.IsProper) (entries : ∀ s ∈ t.toList, s ≠ "") :
    value ≠ "" ∧ ∀ s ∈ t'.toList, s ≠ "" := by
  cases r with
  | literal written add =>
      have nonempty : written ≠ "" := literal written add rfl
      unfold resolveIdentifying at h
      dsimp only at h
      split at h
      · next entered =>
          cases h
          refine ⟨nonempty, fun s mem => ?_⟩
          rcases mem_toList_of_enter entered mem with rfl | old
          · exact nonempty
          · exact entries s old
      · cases h
  | indexed index =>
      unfold resolveIdentifying at h
      dsimp only at h
      split at h
      · next found =>
          cases h
          exact ⟨entries _ (mem_toList_of_get found), entries⟩
      · cases h
  | packed => cases h

namespace Vocabulary

variable {v v' : Vocabulary}

theorem updateStrings_eq_ok {β : Type} {kind : StringKind} {b : β}
    {f : Table (.strings kind) String → Except CodecError (β × Table (.strings kind) String)}
    (h : v.updateStrings kind f = .ok (b, v')) :
    ∃ t, f (v.strings kind) = .ok (b, t) ∧ v' = v.withStrings kind t := by
  rw [updateStrings_eq] at h
  cases made : f (v.strings kind) with
  | error cause => rw [made] at h; cases h
  | ok r =>
      rw [made] at h
      cases h
      exact ⟨_, rfl, rfl⟩

theorem updateNames_eq_ok {β : Type} {kind : NameKind} {b : β}
    {f : Table (.names kind) QualifiedName →
      Except CodecError (β × Table (.names kind) QualifiedName)}
    (h : v.updateNames kind f = .ok (b, v')) :
    ∃ t, f (v.names kind) = .ok (b, t) ∧ v' = v.withNames kind t := by
  rw [updateNames_eq] at h
  cases made : f (v.names kind) with
  | error cause => rw [made] at h; cases h
  | ok r =>
      rw [made] at h
      cases h
      exact ⟨_, rfl, rfl⟩

/-- A part that is there is not empty, and one that is missing is. -/
theorem resolvePart_proper {kind : StringKind} {part : Option Representation} {value : String}
    (h : v.resolvePart kind part = .ok (value, v')) (proper : v.IsProper)
    (identifies : kind.identifies = true) (literal : ∀ r ∈ part, r.IsProper) :
    v'.IsProper ∧ (value ≠ "" ↔ part.isSome = true) := by
  cases part with
  | none =>
      cases h
      exact ⟨proper, by simp⟩
  | some r =>
      obtain ⟨t, resolved, rfl⟩ := updateStrings_eq_ok h
      obtain ⟨nonempty, entries⟩ := Table.resolveIdentifying_proper resolved (literal r rfl)
        (proper.strings_ne kind identifies)
      exact ⟨proper.withStrings fun _ => entries, by simp [nonempty]⟩

/-- Content is not entered into tables of names. -/
theorem resolveContent_proper {c : Codec} {kind : StringKind} {r : Representation}
    {content : Content} (h : v.resolveContent c kind r = .ok (content, v')) (proper : v.IsProper)
    (other : kind.identifies = false) : v'.IsProper := by
  obtain ⟨t, -, rfl⟩ := updateStrings_eq_ok h
  exact proper.withStrings fun identifies => by rw [other] at identifies; cases identifies

theorem resolveText_proper {c : Codec} {kind : StringKind} {r : Representation} {text : String}
    (h : v.resolveText c kind r = .ok (text, v')) (proper : v.IsProper)
    (other : kind.identifies = false) : v'.IsProper := by
  obtain ⟨⟨content, u⟩, resolved, h⟩ := exists_of_bind h
  obtain ⟨text', -, h⟩ := exists_of_bind h
  cases h
  exact resolveContent_proper resolved proper other

/-- The first two parts of a name, or the parts of a declaration: the tables stay proper, and a
prefix comes with a namespace name. -/
theorem resolveParts_proper {nsPrefix namespaceName : Option Representation} {p n : String}
    {u : Vocabulary} (hp : v.resolvePart .nsPrefix nsPrefix = .ok (p, u))
    (hn : u.resolvePart .namespaceName namespaceName = .ok (n, v')) (proper : v.IsProper)
    (literals : NamespaceAttribute.IsProper ⟨nsPrefix, namespaceName⟩) :
    v'.IsProper ∧ (p ≠ "" → n ≠ "") := by
  obtain ⟨prefixLiteral, namespaceLiteral, together⟩ := literals
  obtain ⟨proper₁, prefixed⟩ := resolvePart_proper hp proper rfl prefixLiteral
  obtain ⟨proper₂, namespaced⟩ := resolvePart_proper hn proper₁ rfl namespaceLiteral
  exact ⟨proper₂, fun present => namespaced.2 (together (prefixed.1 present))⟩

theorem resolveName_proper {kind : NameKind} {r : NameRepresentation} {name : QualifiedName}
    (h : v.resolveName kind r = .ok (name, v')) (proper : v.IsProper) (literals : r.IsProper) :
    name.IsProper ∧ v'.IsProper := by
  cases r with
  | indexed index =>
      unfold resolveName at h
      dsimp only at h
      split at h
      · next found =>
          cases h
          exact ⟨proper.names_proper kind _ (Table.mem_toList_of_get found), proper⟩
      · cases h
  | parts nsPrefix namespaceName localName =>
      obtain ⟨partLiterals, localLiteral⟩ := literals
      obtain ⟨⟨p, v₁⟩, hp, h⟩ := exists_of_bind h
      obtain ⟨⟨n, v₂⟩, hn, h⟩ := exists_of_bind h
      obtain ⟨⟨l, v₃⟩, hl, h⟩ := exists_of_bind h
      obtain ⟨proper₂, together⟩ := resolveParts_proper hp hn proper partLiterals
      obtain ⟨proper₃, named⟩ := resolvePart_proper hl proper₂ rfl fun r is => by
        cases is
        exact localLiteral
      have whole : QualifiedName.IsProper { nsPrefix := p, namespaceName := n, localName := l } :=
        ⟨named.2 rfl, together⟩
      -- The name is entered behind its parts, in tables that they leave proper.
      obtain ⟨t, entered, rfl⟩ := updateNames_eq_ok h
      split at entered
      · next added =>
          cases entered
          refine ⟨whole, proper₃.withNames fun name mem => ?_⟩
          rcases Table.mem_toList_of_enter added mem with rfl | old
          · exact whole
          · exact proper₃.names_proper kind name old
      · cases entered

theorem resolveDeclaration_proper {a : NamespaceAttribute} {d : NamespaceDeclaration}
    (h : v.resolveDeclaration a = .ok (d, v')) (proper : v.IsProper) (literals : a.IsProper) :
    d.IsProper ∧ v'.IsProper := by
  obtain ⟨⟨p, v₁⟩, hp, h⟩ := exists_of_bind h
  obtain ⟨⟨n, v₂⟩, hn, h⟩ := exists_of_bind h
  cases h
  obtain ⟨proper₂, together⟩ := resolveParts_proper hp hn proper literals
  exact ⟨together, proper₂⟩

end Vocabulary

/-! ## Representations that were read -/

theorem Ladder.ensures_readLength {l : Ladder} (positive : ∀ r ∈ l.rungs, 1 ≤ r.least)
    (first : UInt8) : Ensures (l.readLength first) (1 ≤ ·) := by
  unfold readLength read
  split
  · exact ensures_unexpected _ _
  · next r found =>
      refine ensures_bind fun tail => ensures_pure ?_
      have := positive r (List.mem_of_find?_eq_some found)
      omega

theorem Parser.ensures_slice (count : Nat) : Ensures (slice count) (·.length = count) := by
  intro i octets i' ok
  unfold slice at ok
  dsimp only at ok
  split at ok
  · next enough =>
      cases ok
      exact enough
  · cases ok

theorem Ladder.ensures_readString {l : Ladder} (positive : ∀ r ∈ l.rungs, 1 ≤ r.least)
    (first : UInt8) : Ensures (l.readString first) (· ≠ []) := by
  refine (l.ensures_readLength positive first).bind fun length atLeast => ?_
  intro i octets i' ok
  have size := Parser.ensures_slice length i octets i' ok
  rintro rfl
  rw [List.length_nil] at size
  omega

theorem Utf8.ne_nil_of_decodeFrom {index : Nat} {octets : Octets} {characters : List Char}
    (h : decodeFrom index octets = .ok characters) (nonempty : octets ≠ []) : characters ≠ [] := by
  cases octets with
  | nil => exact absurd rfl nonempty
  | cons first rest =>
      have tail {r : Except Failure (List Char)} {c : Char}
          (ok : r.map (c :: ·) = .ok characters) : characters ≠ [] := by
        cases r with
        | error failure => cases ok
        | ok cs =>
            cases ok
            exact List.cons_ne_nil c cs
      unfold decodeFrom at h
      dsimp only at h
      split at h
      · exact tail h
      split at h
      · cases h
      split at h
      · cases h
      split at h
      · cases h
      split at h
      · exact tail h
      split at h
      · cases h
      split at h
      · cases h
      split at h
      · exact tail h
      split at h
      · cases h
      split at h
      · cases h
      · exact tail h

theorem Parser.ensures_text {octets : Octets} (nonempty : octets ≠ []) :
    Ensures (text .utf8 octets) (· ≠ "") := by
  unfold text
  cases decoded : CharacterEncoding.utf8.decode octets with
  | error cause => exact ensures_throw cause
  | ok value =>
      refine ensures_pure ?_
      unfold CharacterEncoding.decode Utf8.decode at decoded
      dsimp only at decoded
      cases read : Utf8.decodeFrom 0 octets with
      | error failure => rw [read] at decoded; cases decoded
      | ok characters =>
          rw [read] at decoded
          cases decoded
          intro blank
          exact Utf8.ne_nil_of_decodeFrom read nonempty (String.ofList_eq_empty_iff.1 blank)

namespace Representation

theorem ensures_readIdentifying : Ensures readIdentifying IsProper := by
  refine ensures_bind fun first => ensures_ite (fun _ => ?_) (fun _ => ?_)
  · refine (Ladder.ensures_readString (by decide) first).bind fun octets nonempty => ?_
    refine (Parser.ensures_text nonempty).bind fun value present => ensures_pure ?_
    rintro _ _ ⟨⟩
    exact present
  · refine ensures_bind fun index => ensures_pure ?_
    rintro _ _ ⟨⟩

end Representation

namespace NameRepresentation

theorem ensures_readPart (isPresent : Bool) :
    Ensures (readPart isPresent) fun part =>
      (∀ r ∈ part, r.IsProper) ∧ part.isSome = isPresent := by
  unfold readPart
  refine ensures_ite (fun present => ?_) (fun absent => ?_)
  · refine Representation.ensures_readIdentifying.bind fun r proper => ensures_pure ?_
    rw [present]
    exact ⟨fun r' is => by cases is; exact proper, rfl⟩
  · exact ensures_pure ⟨nofun, by simpa using absent⟩

theorem ensures_readOptionalParts (first : UInt8) :
    Ensures (readOptionalParts first) fun parts =>
      NamespaceAttribute.IsProper ⟨parts.1, parts.2⟩ := by
  refine ensures_ite (fun _ => ensures_throw _) (fun together => ?_)
  refine (ensures_readPart _).bind fun nsPrefix hp => (ensures_readPart _).bind fun uri hn => ?_
  refine ensures_pure ⟨hp.1, hn.1, fun present => ?_⟩
  rw [hp.2] at present
  rw [hn.2]
  simpa [present] using together

theorem ensures_readParts (first : UInt8) : Ensures (readParts first) IsProper := by
  refine (ensures_readOptionalParts first).bind fun parts optional => ?_
  refine Representation.ensures_readIdentifying.bind fun localName proper => ensures_pure ?_
  exact ⟨optional, proper⟩

theorem ensures_readElement (first : UInt8) : Ensures (readElement first) IsProper := by
  refine ensures_ite (fun _ => ?_) (fun _ => ?_)
  · exact ensures_bind fun index => ensures_pure trivial
  · exact ensures_ite (fun _ => ensures_readParts first) (fun _ => ensures_unexpected _ _)

theorem ensures_readAttribute (first : UInt8) : Ensures (readAttribute first) IsProper := by
  refine ensures_ite (fun _ => ensures_readParts first) (fun _ => ensures_ite (fun _ => ?_) ?_)
  · exact ensures_bind fun index => ensures_pure trivial
  · exact fun _ => ensures_unexpected _ _

end NameRepresentation

theorem NamespaceAttribute.ensures_read (first : UInt8) : Ensures (read first) IsProper := by
  refine ensures_ite (fun _ => ensures_unexpected _ _) (fun _ => ?_)
  refine (NameRepresentation.ensures_readOptionalParts first).bind fun parts optional => ?_
  exact ensures_pure optional

end BinaryXml
