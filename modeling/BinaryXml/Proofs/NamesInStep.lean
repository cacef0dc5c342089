import BinaryXml.Proofs.NameRoundTrip
import BinaryXml.Proofs.TablesInStep

/-!
# Names in step

The parts of a name go into three tables of strings and the name into a fourth, so entering one
part leaves what the others stand for alone. Hence a reader with the settled tables of a writer
resolves the parts one after another as the writer represented them all at once.
-/

namespace BinaryXml

namespace Tables

/-- A part that is left out stands for the empty string. -/
def PartDenotes (t : Tables) (kind : StringKind) (value : String) : Option Representation → Prop
  | none => value = ""
  | some r => t.Denotes kind value r

/-- The tables after the entry of a part, if the part is there. -/
def enterPart (t : Tables) (kind : StringKind) (part : Option Representation) : Tables :=
  (part.toList.map (Entry.string kind)).foldl enter t

theorem partDenotes_identifying (t : Tables) (kind : StringKind) (value : String) :
    t.PartDenotes kind value (if value.isEmpty then none else some (t.identifying kind value)) := by
  split
  · next blank => exact String.isEmpty_iff.1 blank
  · exact t.denotes_identifying kind value

theorem partDenotes_of_present (t : Tables) (kind : StringKind) (value : String) :
    t.PartDenotes kind value
      (if (!value.isEmpty) = true then some (t.identifying kind value) else none) := by
  have := t.partDenotes_identifying kind value
  cases blank : value.isEmpty <;> rw [blank] at this <;> exact this

theorem strings_enterPart_of_ne (t : Tables) {kind kind' : StringKind} (h : kind' ≠ kind)
    (part : Option Representation) :
    (t.enterPart kind part).vocabulary.strings kind' = t.vocabulary.strings kind' := by
  cases part with
  | none => rfl
  | some r => exact t.strings_enter_of_ne h r

theorem names_enterPart (t : Tables) (kind : StringKind) (part : Option Representation)
    (kind' : NameKind) :
    (t.enterPart kind part).vocabulary.names kind' = t.vocabulary.names kind' := by
  cases part with
  | none => rfl
  | some r => exact t.names_enter kind r kind'

theorem PartDenotes.congr {t u : Tables} {kind : StringKind}
    (h : t.vocabulary.strings kind = u.vocabulary.strings kind) {value : String}
    {part : Option Representation} (d : t.PartDenotes kind value part) :
    u.PartDenotes kind value part := by
  cases part with
  | none => exact d
  | some r => exact Denotes.congr h d

theorem resolvePart_of_partDenotes {t : Tables} {kind : StringKind} {value : String}
    {part : Option Representation} (d : t.PartDenotes kind value part)
    (fresh : ∀ e ∈ part.toList.map (Entry.string kind), t.conflict? e = none) :
    t.vocabulary.settled.resolvePart kind (part.map (·.asIdentifying)) =
      .ok (value, (t.enterPart kind part).vocabulary.settled) := by
  cases part with
  | none =>
      cases d
      rfl
  | some r => exact resolvePart_of_denotes d (fresh _ (List.mem_singleton_self _))

/-- Entries of one table are as new to tables that differ in others. -/
theorem fresh_congr {t u : Tables} {kind : StringKind}
    (h : t.vocabulary.strings kind = u.vocabulary.strings kind) {part : Option Representation}
    (fresh : ∀ e ∈ part.toList.map (Entry.string kind), t.conflict? e = none) :
    ∀ e ∈ part.toList.map (Entry.string kind), u.conflict? e = none := by
  intro e he
  obtain ⟨r, -, rfl⟩ := List.mem_map.1 he
  rw [← conflict?_congr h]
  exact fresh _ he

theorem conflict?_name_congr {t u : Tables} {kind : NameKind}
    (h : t.vocabulary.names kind = u.vocabulary.names kind) (name : QualifiedName) :
    t.conflict? (.name kind name) = u.conflict? (.name kind name) := by
  simp only [conflict?, h]

/-- A reader enters a name that is new to the writer. -/
theorem enter_of_fresh_name {t : Tables} {kind : NameKind} {name : QualifiedName}
    (fresh : t.conflict? (.name kind name) = none) :
    (t.vocabulary.settled.updateNames kind fun table =>
      match table.enter name with
      | .ok table => .ok (name, table)
      | .error cause => .error (CodecError.vocabulary cause)) =
      .ok (name, (t.enter (.name kind name)).vocabulary.settled) := by
  have clear : (!(t.vocabulary.names kind).isFull &&
      (t.vocabulary.names kind).contains name) = false := by
    simpa [conflict?] using fresh
  rw [Vocabulary.updateNames_eq, Vocabulary.settled_names, Table.enter_settled clear,
    vocabulary_enter_name, Vocabulary.settled_withNames]
  rfl

section Parts

variable {t : Tables} {nsPrefix namespaceName : Option Representation}

theorem resolveName_of_denotes {kind : NameKind} {name : QualifiedName}
    {localName : Representation}
    (prefixDenotes : t.PartDenotes .nsPrefix name.nsPrefix nsPrefix)
    (namespaceDenotes : t.PartDenotes .namespaceName name.namespaceName namespaceName)
    (localDenotes : t.Denotes .localName name.localName localName) {entries : List Entry}
    (hentries : entries = nsPrefix.toList.map (.string .nsPrefix) ++
      namespaceName.toList.map (.string .namespaceName) ++
      [.string .localName localName, .name kind name])
    (fresh : entries.findSome? t.conflict? = none) :
    t.vocabulary.settled.resolveName kind
        (NameRepresentation.parts nsPrefix namespaceName localName).asIdentifying =
      .ok (name, (entries.foldl enter t).vocabulary.settled) := by
  subst hentries
  simp only [List.findSome?_eq_none_iff, List.mem_append, List.mem_cons, List.not_mem_nil,
    or_false] at fresh
  obtain ⟨afterPrefix, hAfterPrefix⟩ : ∃ u, u = t.enterPart .nsPrefix nsPrefix := ⟨_, rfl⟩
  obtain ⟨afterNamespace, hAfterNamespace⟩ :
      ∃ u, u = afterPrefix.enterPart .namespaceName namespaceName := ⟨_, rfl⟩
  obtain ⟨afterLocal, hAfterLocal⟩ :
      ∃ u, u = afterNamespace.enter (.string .localName localName) := ⟨_, rfl⟩
  have namespaceKept : t.vocabulary.strings .namespaceName =
      afterPrefix.vocabulary.strings .namespaceName := by
    rw [hAfterPrefix, strings_enterPart_of_ne _ (by decide)]
  have localKept : t.vocabulary.strings .localName =
      afterNamespace.vocabulary.strings .localName := by
    rw [hAfterNamespace, strings_enterPart_of_ne _ (by decide), hAfterPrefix,
      strings_enterPart_of_ne _ (by decide)]
  have nameKept : t.vocabulary.names kind = afterLocal.vocabulary.names kind := by
    rw [hAfterLocal, names_enter, hAfterNamespace, names_enterPart, hAfterPrefix,
      names_enterPart]
  have first := resolvePart_of_partDenotes prefixDenotes fun e he => fresh e (.inl (.inl he))
  have second := resolvePart_of_partDenotes (namespaceDenotes.congr namespaceKept)
    (fresh_congr namespaceKept fun e he => fresh e (.inl (.inr he)))
  have third := resolvePart_of_denotes (localDenotes.congr localKept)
    (by rw [← conflict?_congr localKept]; exact fresh _ (.inr (.inl rfl)))
  have fourth : afterLocal.conflict? (.name kind name) = none := by
    rw [← conflict?_name_congr nameKept]
    exact fresh _ (.inr (.inr rfl))
  rw [← hAfterPrefix] at first
  rw [← hAfterNamespace] at second
  rw [← hAfterLocal] at third
  simp only [NameRepresentation.asIdentifying, Vocabulary.resolveName, first, second, third, bind,
    Except.bind]
  refine (enter_of_fresh_name fourth).trans ?_
  rw [List.foldl_append, List.foldl_append, hAfterLocal, hAfterNamespace, hAfterPrefix]
  rfl

theorem resolveDeclaration_of_denotes {d : NamespaceDeclaration}
    (prefixDenotes : t.PartDenotes .nsPrefix d.nsPrefix nsPrefix)
    (namespaceDenotes : t.PartDenotes .namespaceName d.namespaceName namespaceName)
    {entries : List Entry}
    (hentries : entries = nsPrefix.toList.map (.string .nsPrefix) ++
      namespaceName.toList.map (.string .namespaceName))
    (fresh : entries.findSome? t.conflict? = none) :
    t.vocabulary.settled.resolveDeclaration
        ⟨nsPrefix.map (·.asIdentifying), namespaceName.map (·.asIdentifying)⟩ =
      .ok (d, (entries.foldl enter t).vocabulary.settled) := by
  subst hentries
  simp only [List.findSome?_eq_none_iff, List.mem_append] at fresh
  have namespaceKept : t.vocabulary.strings .namespaceName =
      (t.enterPart .nsPrefix nsPrefix).vocabulary.strings .namespaceName :=
    (t.strings_enterPart_of_ne (by decide) _).symm
  have first := resolvePart_of_partDenotes prefixDenotes fun e he => fresh e (.inl he)
  have second := resolvePart_of_partDenotes (namespaceDenotes.congr namespaceKept)
    (fresh_congr namespaceKept fun e he => fresh e (.inr he))
  simp only [Vocabulary.resolveDeclaration, first, second, bind, Except.bind]
  rw [List.foldl_append]
  rfl

end Parts

end Tables

end BinaryXml
