import BinaryXml.Proofs.ItemRoundTrip

/-!
# Items never conflict with the tables they were made from

A string is written as a literal that asks to be entered only if no index that can be written
leads to it. Then it is missing from its table, or the table has entries beyond the last such
index and is full. Either way its entry can be made, and so no item is found to conflict after its
octets were written.
-/

namespace BinaryXml

namespace Table

variable {kind : TableKind} {α : Type} [DecidableEq α] [Hashable α] {t : Table kind α} {v : α}

theorem lt_nextIndex_of_get? {i : Nat} (h : t.get? i = some v) : i < t.nextIndex := by
  unfold get? at h
  unfold nextIndex
  split at h
  · omega
  · have := Roster.lt_size_of_get? h
    omega

/-- An entry that has no index to be written by lies in a full table. -/
theorem isFull_of_wireIndex?_eq_none (hidden : t.wireIndex? v = none)
    (held : t.contains v = true) : t.isFull = true := by
  obtain ⟨i, found⟩ := Option.isSome_iff_exists.1 held
  have late : indexLimit ≤ i := by
    rw [wireIndex?, found] at hidden
    simpa using hidden
  have := lt_nextIndex_of_get? (get?_of_indexOf? found)
  simp only [isFull, decide_eq_true_eq]
  omega

end Table

namespace Tables

variable {c : Codec} {t : Tables} {kind : StringKind} {value : String}

theorem conflict?_literal_of_wireIndex?
    (hidden : (t.vocabulary.strings kind).wireIndex? value = none) (add : Bool) :
    t.conflict? (.string kind (.literal value add)) = none := by
  cases add with
  | false => rfl
  | true =>
      have full := Table.isFull_of_wireIndex?_eq_none hidden
      simp only [conflict?]
      split
      · next h => simp_all
      · rfl

theorem conflict?_identifying (t : Tables) (kind : StringKind) (value : String) :
    t.conflict? (.string kind (t.identifying kind value)) = none := by
  unfold identifying
  split
  · rfl
  · next hidden => exact conflict?_literal_of_wireIndex? hidden true

theorem conflict?_nonIdentifying (c : Codec) (t : Tables) (kind : StringKind) (value : String) :
    t.conflict? (.string kind (t.nonIdentifying c kind value)) = none := by
  unfold nonIdentifying
  dsimp only
  split
  · rfl
  · next hidden => exact conflict?_literal_of_wireIndex? hidden _

theorem conflict?_of_represent {content : Content} {r : Representation}
    (h : t.represent? c kind content = .ok (some r)) : t.conflict? (.string kind r) = none := by
  unfold represent? at h
  cases content with
  | text characters =>
      dsimp only at h
      split at h
      · cases h
      · cases h
        exact conflict?_nonIdentifying c t kind characters
  | restricted id characters =>
      dsimp only at h
      split at h
      · cases h
      · split at h <;> cases h
        rfl
  | typed id value =>
      dsimp only at h
      split at h
      · split at h <;> cases h
        rfl
      · cases h
  | undecoded packing id octets =>
      cases h
      rfl

theorem conflict?_name {kind : NameKind} {name : QualifiedName}
    (h : (t.vocabulary.names kind).contains name = true →
      (t.vocabulary.names kind).isFull = true) : t.conflict? (.name kind name) = none := by
  simp only [conflict?]
  split
  · next conflict => simp_all
  · rfl

end Tables

namespace Item

variable {c : Codec} {t : Tables} {item : Item}

theorem isFresh_of_entries {e : Emission} {entries : List Entry}
    (free : ∀ entry ∈ entries, t.conflict? entry = none) (h : ofEmission e entries = .ok item) :
    item.IsFresh t := by
  rw [IsFresh, (ofEmission_eq_ok h).2]
  exact List.findSome?_eq_none_iff.2 free

theorem isFresh_of_entry {e : Emission} {entry : Entry} (free : t.conflict? entry = none)
    (h : ofEmission e [entry] = .ok item) : item.IsFresh t := by
  refine isFresh_of_entries ?_ h
  intro other member
  rw [List.mem_singleton.1 member]
  exact free

/-- The entries of a part that may be missing. -/
theorem conflict?_of_mem_part {kind : StringKind} {value : String} {isPresent : Bool}
    {entry : Entry}
    (h : entry ∈ (if isPresent then some (t.identifying kind value) else none).toList.map
      (Entry.string kind)) : t.conflict? entry = none := by
  cases isPresent with
  | false => cases h
  | true =>
      rw [List.mem_singleton.1 h]
      exact t.conflict?_identifying kind value

theorem isFresh_ofHeader {header : DocumentHeader} (h : ofHeader c t header = .ok item) :
    item.IsFresh t := by
  refine isFresh_of_entries ?_ h
  intro entry member
  dsimp only at member
  cases version : header.version with
  | none =>
      rw [version] at member
      cases member
  | some text =>
      rw [version] at member
      rw [List.mem_singleton.1 member]
      exact Tables.conflict?_nonIdentifying c t _ text

theorem part_of_isEmpty (t : Tables) (kind : StringKind) (value : String) :
    (if value.isEmpty then none else some (t.identifying kind value)) =
      if !value.isEmpty then some (t.identifying kind value) else none := by
  cases value.isEmpty <;> rfl

theorem isFresh_ofDeclaration {nsPrefix namespaceName : String}
    (h : ofDeclaration t nsPrefix namespaceName = .ok item) : item.IsFresh t := by
  refine isFresh_of_entries ?_ h
  intro entry member
  rw [part_of_isEmpty, part_of_isEmpty] at member
  rcases List.mem_append.1 member with member | member
  · exact conflict?_of_mem_part member
  · exact conflict?_of_mem_part member

theorem isFresh_ofNewName {kind : NameKind} {name : QualifiedName} {localName : Representation}
    (free : t.conflict? (.string .localName localName) = none)
    (new : t.conflict? (.name kind name) = none)
    (h : ofNewName t kind name localName = .ok item) : item.IsFresh t := by
  refine isFresh_of_entries ?_ h
  intro entry member
  rcases List.mem_append.1 member with member | member
  · rcases List.mem_append.1 member with member | member
    · exact conflict?_of_mem_part member
    · exact conflict?_of_mem_part member
  · rcases List.mem_cons.1 member with rfl | member
    · exact free
    · rw [List.mem_singleton.1 member]
      exact new

theorem isFresh_ofNameIndex {kind : NameKind} {index : Nat}
    (h : ofNameIndex kind index = .ok item) : item.IsFresh t := by
  refine isFresh_of_entries ?_ h
  intro entry member
  cases member

theorem isFresh_ofName {kind : NameKind} {reference : NameReference}
    (h : ofName t kind reference = .ok item) : item.IsFresh t := by
  unfold ofName at h
  cases reference with
  | named name =>
      dsimp only at h
      split at h
      · exact isFresh_ofNameIndex h
      · next hidden =>
          refine isFresh_ofNewName (t.conflict?_identifying _ _) ?_ h
          exact Tables.conflict?_name (Table.isFull_of_wireIndex?_eq_none hidden)
  | indexed index =>
      dsimp only at h
      split at h
      · exact isFresh_ofNameIndex h
      · cases h
  | localIndexed nsPrefix namespaceName index =>
      dsimp only at h
      split at h
      · cases h
      · split at h
        · cases h
        · next new =>
            refine isFresh_ofNewName rfl ?_ h
            exact Tables.conflict?_name fun held => absurd held new

theorem isFresh_ofValue {value : Content} (h : ofValue c t value = .ok item) :
    item.IsFresh t := by
  obtain ⟨r?, represented, made⟩ := ofValue_eq_ok h
  refine isFresh_of_entry ?_ made
  cases r? with
  | none => exact Tables.conflict?_nonIdentifying c t _ ""
  | some r => exact Tables.conflict?_of_represent represented

theorem isFresh_ofCharacters? {content : Content}
    (h : ofCharacters? c t content = .ok (some item)) : item.IsFresh t := by
  obtain ⟨r, represented, made⟩ := ofCharacters?_eq_some h
  exact isFresh_of_entry (Tables.conflict?_of_represent represented) made

theorem isFresh_ofComment {text : String} (h : ofComment c t text = .ok item) :
    item.IsFresh t :=
  isFresh_of_entry (Tables.conflict?_nonIdentifying c t _ text) h

theorem isFresh_ofInstruction {target data : String}
    (h : ofInstruction c t target data = .ok item) : item.IsFresh t := by
  refine isFresh_of_entries ?_ h
  intro entry member
  rcases List.mem_cons.1 member with rfl | member
  · exact t.conflict?_identifying _ target
  · rw [List.mem_singleton.1 member]
    exact Tables.conflict?_nonIdentifying c t _ data

end Item

end BinaryXml
