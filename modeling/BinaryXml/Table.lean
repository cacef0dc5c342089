import BinaryXml.Ladder
import BinaryXml.Roster
import BinaryXml.TableKind

/-!
# Vocabulary tables

A table grows above a base that many documents may share. Indices can be reserved ahead: they come
right after the established entries, and entries added later fill them in ascending order, so a
reservation never changes the index that an entry gets.
-/

namespace BinaryXml

/-- A base whose entries are distinct; the first repeated one is reported. -/
def Roster.base {α : Type} [DecidableEq α] [Hashable α] [Shown α] (kind : TableKind)
    (entries : List α) : Except VocabularyError (Roster α) :=
  (Roster.ofList entries).mapError fun v => .duplicateEntry kind (Shown.shown v)

structure Table (kind : TableKind) (α : Type) [DecidableEq α] [Hashable α] where
  base : Roster α
  added : Roster α := Roster.empty
  reserved : Nat := 0
  added_fresh (v : α) : base.indexOf? v ≠ none → added.indexOf? v = none := by
    intro _; simp [Roster.empty, Roster.indexOf?]

namespace Table

variable {kind : TableKind} {α : Type} [DecidableEq α] [Hashable α]

/-- The number of established entries, which is the index of the next one. -/
def nextIndex (t : Table kind α) : Nat := t.base.size + t.added.size

/-- Reserved indices count as well. -/
def size (t : Table kind α) : Nat := t.nextIndex + t.reserved

def initialSize (t : Table kind α) : Nat := t.base.size

/-- Past the last index that can be written, nothing is added any more. -/
def isFull (t : Table kind α) : Bool := indexLimit ≤ t.nextIndex

def toList (t : Table kind α) : List α := t.base.toList ++ t.added.toList

def indexOf? (t : Table kind α) (v : α) : Option Nat :=
  match t.base.indexOf? v with
  | some i => some i
  | none => (t.added.indexOf? v).map (t.base.size + ·)

/-- The index of an entry, if it can be written. -/
def wireIndex? (t : Table kind α) (v : α) : Option Nat :=
  (t.indexOf? v).filter (· < indexLimit)

def contains (t : Table kind α) (v : α) : Bool := (t.indexOf? v).isSome

def get? (t : Table kind α) (i : Nat) : Option α :=
  if i < t.base.size then t.base.get? i else t.added.get? (i - t.base.size)

def get (t : Table kind α) (i : Nat) : Except VocabularyError α :=
  match t.get? i with
  | some v => .ok v
  | none =>
    if i < t.size then .error (.forwardReference kind i)
    else .error (.outOfRange kind i t.size)

theorem indexOf?_eq_none {t : Table kind α} {v : α} :
    t.indexOf? v = none ↔ t.base.indexOf? v = none ∧ t.added.indexOf? v = none := by
  unfold indexOf?
  split <;> simp [*]

/-- Establishes a new entry, which takes the first reserved index if there is one. -/
def insert (t : Table kind α) (v : α) (isNew : t.indexOf? v = none) : Table kind α where
  base := t.base
  added := t.added.push v (indexOf?_eq_none.1 isNew).2
  reserved := t.reserved - 1
  added_fresh w hw := by
    have old := t.added_fresh w hw
    have different : v ≠ w := fun same => hw (same ▸ (indexOf?_eq_none.1 isNew).1)
    simp only [Roster.indexOf?, Roster.push] at old ⊢
    rw [Std.HashMap.getElem?_insert]
    simp [different, old]

def duplicate [Shown α] (kind : TableKind) (v : α) : VocabularyError :=
  .duplicateEntry kind (Shown.shown v)

/-- Establishes a new entry and tells its index. -/
def add [Shown α] (t : Table kind α) (v : α) : Except VocabularyError (Nat × Table kind α) :=
  if isNew : t.indexOf? v = none then .ok (t.nextIndex, t.insert v isNew)
  else .error (duplicate kind v)

/-- Adds a new entry, unless the table is full. -/
def enter [Shown α] (t : Table kind α) (v : α) : Except VocabularyError (Table kind α) :=
  if t.isFull then .ok t else (t.add v).map (·.2)

/-- Sets the next unused index aside. -/
def reserve (t : Table kind α) : Nat × Table kind α :=
  (t.size, { t with reserved := t.reserved + 1 })

/-- Takes the table back to its base. -/
def clear (t : Table kind α) : Table kind α where
  base := t.base

end Table

end BinaryXml
