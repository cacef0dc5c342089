import BinaryXml.Item
import BinaryXml.Resolution
import BinaryXml.Proofs.RepresentationRoundTrip

/-!
# Tables of writers and readers

A reader knows the entries that were established and nothing of reservations. Settled tables are
what is left of a writer's tables without these; this module shows that a reader with the settled
tables of a writer resolves what the writer makes of a string to that string, and then has the
settled tables of the writer after the entry was made.
-/

namespace BinaryXml

namespace Table

section Settled

variable {kind : TableKind} {α : Type} [DecidableEq α] [Hashable α]

/-- The established entries, each with its index. -/
def entries (t : Table kind α) : List (α × Nat) := t.toList.zipIdx

theorem mem_entries {t : Table kind α} {v : α} {i : Nat} :
    (v, i) ∈ t.entries ↔ t.get? i = some v := by
  simp only [entries, List.mem_zipIdx_iff_getElem?, toList, List.getElem?_append, get?,
    Roster.toList, Roster.size, Roster.get?, Array.length_toList, Array.getElem?_toList]
  exact Iff.rfl

/-- The table without its reservations. -/
def settled (t : Table kind α) : Table kind α := { t with reserved := 0 }

@[simp] theorem settled_entries (t : Table kind α) : t.settled.entries = t.entries := rfl

@[simp] theorem settled_isFull (t : Table kind α) : t.settled.isFull = t.isFull := rfl

theorem get_eq_ok {t : Table kind α} {i : Nat} {v : α} : t.get i = .ok v ↔ t.get? i = some v := by
  unfold get
  split
  · next w h => simp [h]
  · next h =>
      rw [h]
      split <;> simp

theorem get?_of_indexOf? {t : Table kind α} {v : α} {i : Nat} (h : t.indexOf? v = some i) :
    t.get? i = some v := by
  unfold indexOf? at h
  split at h
  · next j hj =>
      cases h
      rw [get?, if_pos (Roster.indexOf?_lt_size hj)]
      exact Roster.indexOf?_eq_some.1 hj
  · obtain ⟨j, hj, rfl⟩ := Option.map_eq_some_iff.1 h
    rw [get?, if_neg (by omega), Nat.add_sub_cancel_left]
    exact Roster.indexOf?_eq_some.1 hj

theorem indexOf?_of_wireIndex? {t : Table kind α} {v : α} {i : Nat} (h : t.wireIndex? v = some i) :
    t.indexOf? v = some i := by
  rw [wireIndex?, Option.filter_eq_some_iff] at h
  exact h.1

theorem wireIndex?_of_notMem {t : Table kind α} {v : α} (h : v ∉ t.toList) :
    t.wireIndex? v = none := by
  rw [toList, List.mem_append, not_or] at h
  have absent : t.indexOf? v = none :=
    indexOf?_eq_none.2 ⟨Roster.indexOf?_eq_none.2 h.1, Roster.indexOf?_eq_none.2 h.2⟩
  rw [wireIndex?, absent]
  rfl

theorem wireIndex?_of_base {t : Table kind α} {v : α} {i : Nat} (h : t.base.get? i = some v)
    (small : i < indexLimit) : t.wireIndex? v = some i := by
  have found : t.indexOf? v = some i := by
    rw [indexOf?, Roster.indexOf?_eq_some.2 h]
  rw [wireIndex?, found]
  simp [small]

/-- A reader enters what the writer takes in, unless the entry is there already. -/
theorem enter_settled [Shown α] {t : Table kind α} {v : α}
    (h : (!t.isFull && t.contains v) = false) :
    t.settled.enter v = .ok (Tables.absorb t v).2.settled := by
  unfold enter Tables.absorb
  rw [settled_isFull]
  split
  · rfl
  · next hfull =>
      have isNew : t.indexOf? v = none := by
        simpa [hfull, contains] using h
      have isNew' : t.settled.indexOf? v = none := isNew
      rw [add, dif_pos isNew', dif_pos isNew]
      rfl

end Settled

end Table

namespace Vocabulary

/-- The vocabulary with another table in the place of one of its string tables. -/
def withStrings (v : Vocabulary) :
    (kind : StringKind) → Table (.strings kind) String → Vocabulary
  | .nsPrefix, t => { v with prefixes := t }
  | .namespaceName, t => { v with namespaceNames := t }
  | .localName, t => { v with localNames := t }
  | .otherNcName, t => { v with otherNcNames := t }
  | .otherUri, t => { v with otherUris := t }
  | .attributeValue, t => { v with attributeValues := t }
  | .characterChunk, t => { v with characterChunks := t }
  | .otherString, t => { v with otherStrings := t }

def withNames (v : Vocabulary) : (kind : NameKind) → Table (.names kind) QualifiedName → Vocabulary
  | .element, t => { v with elementNames := t }
  | .attribute, t => { v with attributeNames := t }

/-- Every table without its reservations. -/
def settled (v : Vocabulary) : Vocabulary where
  prefixes := v.prefixes.settled
  namespaceNames := v.namespaceNames.settled
  localNames := v.localNames.settled
  otherNcNames := v.otherNcNames.settled
  otherUris := v.otherUris.settled
  attributeValues := v.attributeValues.settled
  characterChunks := v.characterChunks.settled
  otherStrings := v.otherStrings.settled
  elementNames := v.elementNames.settled
  attributeNames := v.attributeNames.settled

variable {ε β : Type} (v : Vocabulary)

theorem updateStrings_eq (kind : StringKind)
    (f : Table (.strings kind) String → Except ε (β × Table (.strings kind) String)) :
    v.updateStrings kind f = (f (v.strings kind)).map fun r => (r.1, v.withStrings kind r.2) := by
  cases kind <;> rfl

theorem updateNames_eq (kind : NameKind)
    (f : Table (.names kind) QualifiedName → Except ε (β × Table (.names kind) QualifiedName)) :
    v.updateNames kind f = (f (v.names kind)).map fun r => (r.1, v.withNames kind r.2) := by
  cases kind <;> rfl

theorem mapStrings_eq (kind : StringKind)
    (f : Table (.strings kind) String → β × Table (.strings kind) String) :
    v.mapStrings kind f =
      ((f (v.strings kind)).1, v.withStrings kind (f (v.strings kind)).2) := by
  cases kind <;> rfl

theorem mapNames_eq (kind : NameKind)
    (f : Table (.names kind) QualifiedName → β × Table (.names kind) QualifiedName) :
    v.mapNames kind f = ((f (v.names kind)).1, v.withNames kind (f (v.names kind)).2) := by
  cases kind <;> rfl

@[simp] theorem withStrings_self (kind : StringKind) : v.withStrings kind (v.strings kind) = v := by
  cases kind <;> rfl

theorem strings_withStrings_of_ne {kind kind' : StringKind} (h : kind' ≠ kind)
    (t : Table (.strings kind) String) :
    (v.withStrings kind t).strings kind' = v.strings kind' := by
  cases kind <;> cases kind' <;> first | rfl | exact absurd rfl h

@[simp] theorem names_withStrings (kind : StringKind) (t : Table (.strings kind) String)
    (kind' : NameKind) : (v.withStrings kind t).names kind' = v.names kind' := by
  cases kind <;> cases kind' <;> rfl

@[simp] theorem settled_strings (kind : StringKind) :
    v.settled.strings kind = (v.strings kind).settled := by
  cases kind <;> rfl

@[simp] theorem settled_names (kind : NameKind) :
    v.settled.names kind = (v.names kind).settled := by
  cases kind <;> rfl

theorem settled_withStrings (kind : StringKind) (t : Table (.strings kind) String) :
    (v.withStrings kind t).settled = v.settled.withStrings kind t.settled := by
  cases kind <;> rfl

theorem settled_withNames (kind : NameKind) (t : Table (.names kind) QualifiedName) :
    (v.withNames kind t).settled = v.settled.withNames kind t.settled := by
  cases kind <;> rfl

end Vocabulary

namespace Tables

/-! ## Entries -/

theorem vocabulary_enter_literal (t : Tables) (kind : StringKind) (value : String) :
    (t.enter (.string kind (.literal value true))).vocabulary =
      t.vocabulary.withStrings kind (absorb (t.vocabulary.strings kind) value).2 := by
  obtain ⟨vocabulary, chunkOctets, valueOctets⟩ := t
  change (vocabulary.mapStrings kind (absorb · value)).2 = _
  rw [Vocabulary.mapStrings_eq]

theorem vocabulary_enter_name (t : Tables) (kind : NameKind) (name : QualifiedName) :
    (t.enter (.name kind name)).vocabulary =
      t.vocabulary.withNames kind (absorb (t.vocabulary.names kind) name).2 := by
  obtain ⟨vocabulary, chunkOctets, valueOctets⟩ := t
  change (vocabulary.mapNames kind (absorb · name)).2 = _
  rw [Vocabulary.mapNames_eq]

theorem enter_string_cases (t : Tables) (kind : StringKind) (r : Representation) :
    (∃ value, r = .literal value true) ∨ t.enter (.string kind r) = t := by
  rcases r with ⟨value, _ | _⟩ | index | ⟨packing, id, octets, add⟩
  · exact .inr rfl
  · exact .inl ⟨value, rfl⟩
  · exact .inr rfl
  · exact .inr rfl

theorem strings_enter_of_ne (t : Tables) {kind kind' : StringKind} (h : kind' ≠ kind)
    (r : Representation) :
    (t.enter (.string kind r)).vocabulary.strings kind' = t.vocabulary.strings kind' := by
  rcases t.enter_string_cases kind r with ⟨value, rfl⟩ | same
  · rw [vocabulary_enter_literal, Vocabulary.strings_withStrings_of_ne _ h]
  · rw [same]

theorem names_enter (t : Tables) (kind : StringKind) (r : Representation) (kind' : NameKind) :
    (t.enter (.string kind r)).vocabulary.names kind' = t.vocabulary.names kind' := by
  rcases t.enter_string_cases kind r with ⟨value, rfl⟩ | same
  · rw [vocabulary_enter_literal, Vocabulary.names_withStrings]
  · rw [same]

/-! ## Identifying strings -/

/-- The representation stands for the string, now or once it is entered. -/
def Denotes (t : Tables) (kind : StringKind) (value : String) : Representation → Prop
  | .literal written add => written = value ∧ add = true
  | .indexed index => (t.vocabulary.strings kind).get? index = some value
  | .packed _ _ _ _ => False

theorem denotes_identifying (t : Tables) (kind : StringKind) (value : String) :
    t.Denotes kind value (t.identifying kind value) := by
  unfold identifying
  split
  · next index h => exact Table.get?_of_indexOf? (Table.indexOf?_of_wireIndex? h)
  · exact ⟨rfl, rfl⟩

theorem Denotes.congr {t u : Tables} {kind : StringKind}
    (h : t.vocabulary.strings kind = u.vocabulary.strings kind) {value : String}
    {r : Representation} (d : t.Denotes kind value r) : u.Denotes kind value r := by
  cases r with
  | literal => exact d
  | indexed => unfold Denotes at d ⊢; rwa [← h]
  | packed => exact d

theorem conflict?_congr {t u : Tables} {kind : StringKind}
    (h : t.vocabulary.strings kind = u.vocabulary.strings kind) (r : Representation) :
    t.conflict? (.string kind r) = u.conflict? (.string kind r) := by
  rcases r with ⟨value, _ | _⟩ | index | ⟨packing, id, octets, add⟩ <;>
    simp only [conflict?, h]

/-- The reader gets the string and then has the tables that the writer goes on with. -/
theorem resolvePart_of_denotes {t : Tables} {kind : StringKind} {value : String}
    {r : Representation} (d : t.Denotes kind value r)
    (fresh : t.conflict? (.string kind r) = none) :
    t.vocabulary.settled.resolvePart kind (some r.asIdentifying) =
      .ok (value, (t.enter (.string kind r)).vocabulary.settled) := by
  cases r with
  | literal written add =>
      obtain ⟨rfl, rfl⟩ := d
      have clear : (!(t.vocabulary.strings kind).isFull &&
          (t.vocabulary.strings kind).contains written) = false := by
        simpa [conflict?] using fresh
      rw [Vocabulary.resolvePart, Vocabulary.updateStrings_eq, Vocabulary.settled_strings,
        Representation.asIdentifying, Table.resolveIdentifying, Table.enter_settled clear,
        vocabulary_enter_literal, Vocabulary.settled_withStrings]
      rfl
  | indexed index =>
      have found : (t.vocabulary.strings kind).settled.get index = .ok value :=
        Table.get_eq_ok.2 d
      rw [Vocabulary.resolvePart, Vocabulary.updateStrings_eq, Vocabulary.settled_strings,
        Representation.asIdentifying, Table.resolveIdentifying, found]
      simp only [Except.map, ← Vocabulary.settled_strings, Vocabulary.withStrings_self]
      rfl
  | packed => exact d.elim

end Tables

end BinaryXml
