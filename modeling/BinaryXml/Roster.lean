import Std.Data.HashMap

/-!
# Rosters

A roster is a list of distinct entries that is searched in both directions: the entry at an index,
and the index of an entry. The two directions agree by construction.
-/

namespace BinaryXml

structure Roster (α : Type) [DecidableEq α] [Hashable α] where
  entries : Array α
  positions : Std.HashMap α Nat
  positions_eq_some (v : α) (i : Nat) : positions[v]? = some i ↔ entries[i]? = some v

namespace Roster

variable {α : Type} [DecidableEq α] [Hashable α]

def empty : Roster α where
  entries := #[]
  positions := ∅
  positions_eq_some := by simp

instance : Inhabited (Roster α) := ⟨empty⟩

def size (r : Roster α) : Nat := r.entries.size

def get? (r : Roster α) (i : Nat) : Option α := r.entries[i]?

def indexOf? (r : Roster α) (v : α) : Option Nat := r.positions[v]?

def toList (r : Roster α) : List α := r.entries.toList

theorem indexOf?_eq_some {r : Roster α} {v : α} {i : Nat} :
    r.indexOf? v = some i ↔ r.get? i = some v :=
  r.positions_eq_some v i

theorem lt_size_of_get? {r : Roster α} {v : α} {i : Nat} (h : r.get? i = some v) : i < r.size := by
  simp only [get?] at h
  exact (Array.getElem?_eq_some_iff.1 h).1

theorem indexOf?_lt_size {r : Roster α} {v : α} {i : Nat} (h : r.indexOf? v = some i) :
    i < r.size :=
  lt_size_of_get? (indexOf?_eq_some.1 h)

theorem get?_eq_getElem? (r : Roster α) (i : Nat) : r.get? i = r.toList[i]? := by
  rw [get?, toList, Array.getElem?_toList]

theorem nodup_toList (r : Roster α) : r.toList.Nodup := by
  refine List.pairwise_iff_getElem.2 fun i j insideI insideJ before same => ?_
  have first : r.indexOf? r.toList[i] = some i := by
    rw [indexOf?_eq_some, get?_eq_getElem?, List.getElem?_eq_getElem insideI]
  have second : r.indexOf? r.toList[j] = some j := by
    rw [indexOf?_eq_some, get?_eq_getElem?, List.getElem?_eq_getElem insideJ]
  rw [same, second, Option.some.injEq] at first
  omega

theorem push_positions (r : Roster α) (v : α) (isNew : r.indexOf? v = none) (w : α) (i : Nat) :
    (r.positions.insert v r.entries.size)[w]? = some i ↔ (r.entries.push v)[i]? = some w := by
  rw [Std.HashMap.getElem?_insert, Array.getElem?_push]
  have known := r.positions_eq_some w i
  have fresh : ∀ j, r.entries[j]? ≠ some v := fun j hj => by
    have := (r.positions_eq_some v j).2 hj
    simp [indexOf?, this] at isNew
  by_cases hw : v = w
  · subst hw
    by_cases hi : i = r.entries.size
    · simp [hi]
    · have := fresh i
      simp [hi, this, eq_comm]
  · by_cases hi : i = r.entries.size
    · subst hi
      have past : r.entries[r.entries.size]? ≠ some w := by simp
      have absent : r.positions[w]? ≠ some r.entries.size := fun h => past (known.1 h)
      simp [hw, absent]
    · simp [hw, hi, known]

/-- Appends a new entry. -/
def push (r : Roster α) (v : α) (isNew : r.indexOf? v = none) : Roster α :=
  let index := r.entries.size
  { entries := r.entries.push v
    positions := r.positions.insert v index
    positions_eq_some := push_positions r v isNew }

@[simp] theorem size_push {r : Roster α} {v : α} (h : r.indexOf? v = none) :
    (r.push v h).size = r.size + 1 := by
  simp [push, size]

@[simp] theorem toList_push {r : Roster α} {v : α} (h : r.indexOf? v = none) :
    (r.push v h).toList = r.toList ++ [v] := by
  simp [push, toList]

/-- Adds entries in order; the first one that is there already is the failure. -/
def extend (r : Roster α) : List α → Except α (Roster α)
  | [] => .ok r
  | v :: vs =>
    if h : r.indexOf? v = none then (r.push v h).extend vs else .error v

def ofList (vs : List α) : Except α (Roster α) := empty.extend vs

theorem toList_of_extend {r r' : Roster α} {vs : List α} (h : r.extend vs = .ok r') :
    r'.toList = r.toList ++ vs := by
  induction vs generalizing r with
  | nil =>
      simp only [extend, Except.ok.injEq] at h
      simp [h]
  | cons v vs ih =>
      simp only [extend] at h
      split at h
      · next isNew => rw [ih h, toList_push, List.append_assoc, List.singleton_append]
      · cases h

theorem toList_of_ofList {r : Roster α} {vs : List α} (h : ofList vs = .ok r) :
    r.toList = vs := by
  simpa [empty, toList] using toList_of_extend h

theorem indexOf?_eq_none {r : Roster α} {v : α} : r.indexOf? v = none ↔ v ∉ r.toList := by
  constructor
  · intro h member
    obtain ⟨i, hi⟩ := List.mem_iff_getElem?.1 member
    have found : r.indexOf? v = some i := indexOf?_eq_some.2 (by simpa [get?, toList] using hi)
    simp [found] at h
  · intro h
    cases found : r.indexOf? v with
    | none => rfl
    | some i =>
        have := indexOf?_eq_some.1 found
        exact absurd (List.mem_iff_getElem?.2 ⟨i, by simpa [get?, toList] using this⟩) h

/-- Distinct entries that are not there yet can all be added. -/
theorem extend_of_nodup {r : Roster α} {vs : List α} (h : (r.toList ++ vs).Nodup) :
    ∃ r', r.extend vs = .ok r' := by
  induction vs generalizing r with
  | nil => exact ⟨r, rfl⟩
  | cons v vs ih =>
      have isNew : r.indexOf? v = none := indexOf?_eq_none.2 fun member =>
        (List.nodup_append.1 h).2.2 v member v List.mem_cons_self rfl
      simp only [extend, isNew, dite_true]
      exact ih (by simpa [List.append_assoc] using h)

theorem ofList_of_nodup {vs : List α} (h : vs.Nodup) : ∃ r, ofList vs = .ok r :=
  extend_of_nodup (by simpa [empty, toList] using h)

/-- The roster of entries known to be distinct. -/
def ofNodup (vs : List α) (distinct : vs.Nodup) : Roster α :=
  match h : ofList vs with
  | .ok r => r
  | .error _ => absurd h (by obtain ⟨r, hr⟩ := ofList_of_nodup distinct; simp [hr])

theorem toList_ofNodup {vs : List α} (h : vs.Nodup) : (ofNodup vs h).toList = vs := by
  unfold ofNodup
  split
  · next r hr => exact toList_of_ofList hr
  · next _ hr =>
      obtain ⟨r, hr'⟩ := ofList_of_nodup h
      simp [hr'] at hr

end Roster

end BinaryXml
