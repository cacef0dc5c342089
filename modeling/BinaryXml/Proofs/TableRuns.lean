import BinaryXml.Proofs.TablesInStep
import Mathlib.Data.String.Basic

/-!
# Runs of a table

Entries are added to a table, indices reserved, and the table is taken back to its base, all in any
order. A register is the plainest account of this: a row of slots, and a queue of those that wait
for an entry. Whatever is done, the table answers as the register does, and the slots that wait are
the last ones in ascending order.
-/

namespace BinaryXml

inductive TableOperation (α : Type)
  | add (v : α)
  | reserve
  | clear

/-! ## Registers -/

structure Register (α : Type) where
  slots : List (Option α)
  /-- The slots without an entry, in the order in which they were reserved. -/
  waiting : List Nat := []
  deriving DecidableEq

namespace Register

variable {α : Type}

def ofEntries (entries : List α) : Register α where
  slots := entries.map some

/-- The slot that waits longest is the next to be filled. -/
def nextSlot (r : Register α) : Nat := r.waiting.headD r.slots.length

def fill (r : Register α) (v : α) : Register α :=
  match r.waiting with
  | [] => { slots := r.slots ++ [some v] }
  | slot :: waiting => { slots := r.slots.set slot (some v), waiting }

def reserve (r : Register α) : Register α where
  slots := r.slots ++ [none]
  waiting := r.waiting ++ [r.slots.length]

theorem fill_of_nil {r : Register α} (h : r.waiting = []) (v : α) :
    r.fill v = { slots := r.slots ++ [some v] } := by
  rw [fill, h]

theorem fill_of_cons {r : Register α} {slot : Nat} {waiting : List Nat}
    (h : r.waiting = slot :: waiting) (v : α) :
    r.fill v = { slots := r.slots.set slot (some v), waiting } := by
  rw [fill, h]

variable [DecidableEq α]

/-- An entry that is there already is not added again. -/
def after (base : List α) (r : Register α) : TableOperation α → Register α
  | .add v => if some v ∈ r.slots then r else r.fill v
  | .reserve => r.reserve
  | .clear => ofEntries base

def run (base : List α) (operations : List (TableOperation α)) : Register α :=
  operations.foldl (after base) (ofEntries base)

end Register

/-! ## Entries and their indices -/

section Entries

variable {kind : TableKind} {α : Type} [DecidableEq α] [Hashable α]

theorem Roster.exists_base [Shown α] {entries : List α} (distinct : entries.Nodup) :
    ∃ base, Roster.base kind entries = .ok base := by
  obtain ⟨base, built⟩ := ofList_of_nodup distinct
  exact ⟨base, by rw [Roster.base, built]; rfl⟩

theorem Roster.toList_of_base [Shown α] {entries : List α} {base : Roster α}
    (h : Roster.base kind entries = .ok base) : base.toList = entries := by
  unfold Roster.base at h
  cases built : ofList entries with
  | ok r =>
      rw [built] at h
      cases h
      exact toList_of_ofList built
  | error v =>
      rw [built] at h
      cases h

namespace Table

variable {t : Table kind α} {v : α} {i : Nat}

theorem indexOf?_eq_none_iff : t.indexOf? v = none ↔ v ∉ t.toList := by
  rw [indexOf?_eq_none, Roster.indexOf?_eq_none, Roster.indexOf?_eq_none, toList, List.mem_append,
    not_or]

theorem get?_eq_getElem? (t : Table kind α) (i : Nat) : t.get? i = t.toList[i]? := by
  rw [toList, List.getElem?_append, get?, Roster.get?_eq_getElem?, Roster.get?_eq_getElem?]
  simp only [Roster.toList, Roster.size, Array.length_toList]
  rfl

theorem length_toList (t : Table kind α) : t.toList.length = t.nextIndex := by
  simp only [toList, nextIndex, Roster.toList, Roster.size, List.length_append, Array.length_toList]

/-- What was added is not in the base. -/
theorem nodup_toList (t : Table kind α) : t.toList.Nodup := by
  refine List.nodup_append.2 ⟨t.base.nodup_toList, t.added.nodup_toList, ?_⟩
  rintro v inBase w inAdded rfl
  have known : t.base.indexOf? v ≠ none := fun absent => Roster.indexOf?_eq_none.1 absent inBase
  exact Roster.indexOf?_eq_none.1 (t.added_fresh v known) inAdded

theorem indexOf?_eq_some : t.indexOf? v = some i ↔ t.get? i = some v := by
  refine ⟨get?_of_indexOf?, fun held => ?_⟩
  cases found : t.indexOf? v with
  | none =>
      rw [get?_eq_getElem?] at held
      exact absurd (List.mem_of_getElem? held) (indexOf?_eq_none_iff.1 found)
  | some j =>
      -- Two indices of one entry are the same, since the entries are distinct.
      have held' := get?_of_indexOf? found
      rw [get?_eq_getElem?] at held held'
      have inside := (List.getElem?_eq_some_iff.1 held).1
      rw [(List.getElem?_inj inside t.nodup_toList).1 (held.trans held'.symm)]

theorem toList_insert (isNew : t.indexOf? v = none) :
    (t.insert v isNew).toList = t.toList ++ [v] := by
  simp only [insert, toList, Roster.toList_push, List.append_assoc]

theorem nextIndex_insert (isNew : t.indexOf? v = none) :
    (t.insert v isNew).nextIndex = t.nextIndex + 1 := by
  simp only [insert, nextIndex, Roster.size_push, Nat.add_assoc]

end Table

end Entries

/-! ## Steps and runs -/

namespace Table

variable {kind : TableKind} {α : Type} [DecidableEq α] [Hashable α] [Shown α]

/-- An operation that is refused changes nothing. -/
def after (t : Table kind α) : TableOperation α → Table kind α
  | .add v =>
    match t.add v with
    | .ok (_, t) => t
    | .error _ => t
  | .reserve => t.reserve.2
  | .clear => t.clear

def run (t : Table kind α) (operations : List (TableOperation α)) : Table kind α :=
  operations.foldl after t

/-- The entries take the first slots, and the slots reserved behind them wait in order. -/
structure Tracks (t : Table kind α) (r : Register α) : Prop where
  slots_eq : r.slots = t.toList.map some ++ List.replicate t.reserved none
  waiting_eq : r.waiting = List.range' t.nextIndex t.reserved

variable {t : Table kind α} {r : Register α} {v : α}

omit [Shown α] in
theorem tracks_base (base : Roster α) :
    ({ base } : Table kind α).Tracks (.ofEntries base.toList) := by
  refine ⟨?_, rfl⟩
  simp [Register.ofEntries, toList, Roster.toList, Roster.empty]

namespace Tracks

omit [Shown α]

theorem mem_slots (h : t.Tracks r) : some v ∈ r.slots ↔ v ∈ t.toList := by
  rw [h.slots_eq]
  simp [List.mem_replicate]

theorem length_slots (h : t.Tracks r) : r.slots.length = t.size := by
  rw [h.slots_eq, List.length_append, List.length_map, length_toList, List.length_replicate, size]

theorem nextSlot_eq (h : t.Tracks r) : r.nextSlot = t.nextIndex := by
  rw [Register.nextSlot, h.waiting_eq, h.length_slots, size]
  cases t.reserved with
  | zero => rfl
  | succ reserved => rfl

theorem insert (h : t.Tracks r) (isNew : t.indexOf? v = none) :
    (t.insert v isNew).Tracks (r.fill v) := by
  obtain ⟨slots, waiting⟩ := h
  have entries := toList_insert isNew
  have next := nextIndex_insert isNew
  have left : (t.insert v isNew).reserved = t.reserved - 1 := rfl
  cases reserved : t.reserved with
  | zero =>
      rw [reserved] at slots waiting left
      rw [Register.fill_of_nil waiting]
      refine ⟨?_, ?_⟩
      · simp [slots, entries, left]
      · rw [left]
        rfl
  | succ reserved' =>
      rw [reserved] at slots waiting left
      rw [List.range'_succ] at waiting
      rw [Register.fill_of_cons waiting]
      refine ⟨?_, ?_⟩
      · -- The slot that waits longest is the one right behind the entries.
        rw [slots, entries, left, ← length_toList, List.set_append_right _ _ (by simp)]
        simp [List.replicate_succ]
      · rw [next, left]
        rfl

theorem reserve (h : t.Tracks r) : t.reserve.2.Tracks r.reserve := by
  obtain ⟨slots, waiting⟩ := h
  have length : r.slots.length = t.nextIndex + t.reserved := length_slots ⟨slots, waiting⟩
  refine ⟨?_, ?_⟩
  · change r.slots ++ [none] = t.toList.map some ++ List.replicate (t.reserved + 1) none
    rw [slots, List.append_assoc, List.replicate_succ']
  · change r.waiting ++ [r.slots.length] = List.range' t.nextIndex (t.reserved + 1)
    rw [waiting, length, List.range'_1_concat]

end Tracks

theorem add_of_mem (h : v ∈ t.toList) : t.add v = .error (duplicate kind v) := by
  have known : ¬t.indexOf? v = none := fun absent => indexOf?_eq_none_iff.1 absent h
  rw [add, dif_neg known]

theorem add_of_notMem (h : v ∉ t.toList) :
    t.add v = .ok (t.nextIndex, t.insert v (indexOf?_eq_none_iff.2 h)) := by
  rw [add, dif_pos (indexOf?_eq_none_iff.2 h)]

theorem base_after (t : Table kind α) (operation : TableOperation α) :
    (t.after operation).base = t.base := by
  cases operation with
  | add v =>
      by_cases known : v ∈ t.toList
      · simp only [after, add_of_mem known]
      · simp only [after, add_of_notMem known]
        rfl
  | reserve => rfl
  | clear => rfl

/-- A table goes on to answer as its register does. -/
theorem Tracks.after (h : t.Tracks r) (operation : TableOperation α) :
    (t.after operation).Tracks (r.after t.base.toList operation) := by
  cases operation with
  | add v =>
      by_cases known : v ∈ t.toList
      · simp only [Table.after, add_of_mem known, Register.after, if_pos (h.mem_slots.2 known)]
        exact h
      · have new : ¬some v ∈ r.slots := fun filled => known (h.mem_slots.1 filled)
        simp only [Table.after, add_of_notMem known, Register.after, if_neg new]
        exact h.insert _
  | reserve => exact h.reserve
  | clear => exact tracks_base t.base

theorem base_run (t : Table kind α) (operations : List (TableOperation α)) :
    (t.run operations).base = t.base := by
  induction operations generalizing t with
  | nil => rfl
  | cons operation operations ih => exact (ih (t.after operation)).trans (t.base_after operation)

theorem Tracks.run (h : t.Tracks r) (operations : List (TableOperation α)) :
    (t.run operations).Tracks (operations.foldl (Register.after t.base.toList) r) := by
  induction operations generalizing t r with
  | nil => exact h
  | cons operation operations ih =>
      have next := ih (h.after operation)
      rwa [base_after] at next

/-! ## Answers -/

/-- The table answers as the register says, and its entries are distinct and come first. -/
structure Answers (t : Table kind α) (r : Register α) : Prop where
  distinct : t.toList.Nodup
  slots_eq : r.slots = t.toList.map some ++ List.replicate (t.size - t.nextIndex) none
  waiting_eq : r.waiting = List.range' t.nextIndex (t.size - t.nextIndex)
  size_eq : t.size = r.slots.length
  nextIndex_eq : t.nextIndex = r.nextSlot
  length_toList : t.toList.length = t.nextIndex
  get_eq_ok (i : Nat) (v : α) : t.get i = .ok v ↔ r.slots[i]? = some (some v)
  get_eq_forwardReference (i : Nat) :
    t.get i = .error (.forwardReference kind i) ↔ t.nextIndex ≤ i ∧ i < t.size
  get_eq_outOfRange (i : Nat) : t.get i = .error (.outOfRange kind i t.size) ↔ t.size ≤ i
  indexOf?_eq_some (v : α) (i : Nat) : t.indexOf? v = some i ↔ t.get i = .ok v
  add_of_mem (v : α) : v ∈ t.toList → t.add v = .error (duplicate kind v) ∧ t.after (.add v) = t
  add_of_notMem (v : α) : v ∉ t.toList →
    t.add v = .ok (t.nextIndex, t.after (.add v)) ∧ (t.after (.add v)).toList = t.toList ++ [v]
  reserve_fst : t.reserve.1 = t.size

omit [Shown α] in
theorem get?_eq_none_iff {i : Nat} : t.get? i = none ↔ t.nextIndex ≤ i := by
  rw [get?_eq_getElem?, List.getElem?_eq_none_iff, length_toList]

omit [Shown α] in
theorem get_cases (t : Table kind α) (i : Nat) :
    (i < t.nextIndex ∧ ∃ v, t.get i = .ok v) ∨
      (t.nextIndex ≤ i ∧ i < t.size ∧ t.get i = .error (.forwardReference kind i)) ∨
      (t.size ≤ i ∧ t.get i = .error (.outOfRange kind i t.size)) := by
  cases held : t.get? i with
  | some v =>
      have inside : ¬t.nextIndex ≤ i := fun outside => by
        rw [get?_eq_none_iff.2 outside] at held
        cases held
      exact .inl ⟨Nat.lt_of_not_le inside, v, get_eq_ok.2 held⟩
  | none =>
      have outside := get?_eq_none_iff.1 held
      by_cases reserved : i < t.size
      · exact .inr (.inl ⟨outside, reserved, by simp only [get, held, if_pos reserved]⟩)
      · exact .inr (.inr ⟨Nat.le_of_not_lt reserved, by simp only [get, held, if_neg reserved]⟩)

omit [Shown α] in
theorem get_eq_forwardReference_iff {i : Nat} :
    t.get i = .error (.forwardReference kind i) ↔ t.nextIndex ≤ i ∧ i < t.size := by
  rcases t.get_cases i with ⟨inside, v, held⟩ | ⟨outside, reserved, held⟩ | ⟨beyond, held⟩
  · simp [held, Nat.not_le_of_lt inside]
  · simp [held, outside, reserved]
  · simp [held, Nat.not_lt_of_le beyond]

theorem Tracks.answers (h : t.Tracks r) : t.Answers r := by
  have left : t.size - t.nextIndex = t.reserved := Nat.add_sub_cancel_left _ _
  have within : t.nextIndex ≤ t.size := Nat.le_add_right _ _
  refine
    { distinct := t.nodup_toList
      slots_eq := by rw [left, h.slots_eq]
      waiting_eq := by rw [left, h.waiting_eq]
      size_eq := h.length_slots.symm
      nextIndex_eq := h.nextSlot_eq.symm
      length_toList := t.length_toList
      get_eq_ok := fun i v => ?_
      get_eq_forwardReference := fun i => get_eq_forwardReference_iff
      get_eq_outOfRange := fun i => ?_
      indexOf?_eq_some := fun v i => Table.indexOf?_eq_some.trans Table.get_eq_ok.symm
      add_of_mem := fun v known => ?_
      add_of_notMem := fun v new => ?_
      reserve_fst := rfl }
  · rw [Table.get_eq_ok, get?_eq_getElem?, h.slots_eq, List.getElem?_append, List.length_map]
    split
    · simp
    · next outside =>
        rw [List.getElem?_eq_none (by omega), List.getElem?_replicate]
        split <;> simp
  · rcases t.get_cases i with ⟨inside, v, held⟩ | ⟨outside, reserved, held⟩ | ⟨beyond, held⟩
    · rw [held]
      simp
      omega
    · rw [held]
      simp
      omega
    · simp [held, beyond]
  · refine ⟨Table.add_of_mem known, ?_⟩
    simp only [Table.after, Table.add_of_mem known]
  · simp only [Table.after, Table.add_of_notMem new, toList_insert, and_self]

/-- After any run over a base, the table answers as the register of the run, and clearing it makes
it the table that the run began with. -/
theorem answers_of_run (kind : TableKind) (entries : List α) (base : Roster α)
    (built : Roster.base kind entries = .ok base) (operations : List (TableOperation α)) :
    (({ base } : Table kind α).run operations).Answers (Register.run entries operations) ∧
      (({ base } : Table kind α).run operations).after .clear = { base } := by
  have start : ({ base } : Table kind α).Tracks (.ofEntries base.toList) := tracks_base base
  have reached := start.run operations
  rw [Roster.toList_of_base built] at reached
  refine ⟨reached.answers, ?_⟩
  simp only [after, clear, base_run]

/-- Indices reserved ahead are given to the entries that come next, and what was added before the
table was cleared is gone. -/
theorem answers_of_run_reserved :
    ∃ base, Roster.base (.strings .localName) ["x", "y"] = .ok base ∧
      let t := ({ base } : Table (.strings .localName) String).run
        [.add "z", .clear, .reserve, .reserve, .reserve, .add "p", .add "x", .add "q"]
      t.get 2 = .ok "p" ∧ t.indexOf? "q" = some 3 ∧ t.indexOf? "z" = none ∧
        t.get 4 = .error (.forwardReference (.strings .localName) 4) ∧
        t.get 5 = .error (.outOfRange (.strings .localName) 5 5) ∧
        t.reserve.1 = 5 ∧ t.after .clear = { base } := by
  have exists_base : ∃ base, Roster.base (.strings .localName) ["x", "y"] = .ok base :=
    Roster.exists_base (by decide)
  obtain ⟨base, built⟩ := exists_base
  refine ⟨base, built, ?_⟩
  intro t
  obtain ⟨answers, cleared⟩ := answers_of_run _ _ base built
    [.add "z", .clear, .reserve, .reserve, .reserve, .add "p", .add "x", .add "q"]
  have slots : (Register.run ["x", "y"]
      [.add "z", .clear, .reserve, .reserve, .reserve, .add "p", .add "x", .add "q"]) =
    { slots := [some "x", some "y", some "p", some "q", none], waiting := [4] } := by decide
  rw [slots] at answers
  have q : t.get 3 = .ok "q" := (answers.get_eq_ok 3 "q").2 rfl
  have size : t.size = 5 := answers.size_eq
  have next : t.nextIndex = 4 := answers.nextIndex_eq
  have outside := (answers.get_eq_outOfRange 5).2 (Nat.le_of_eq size)
  rw [size] at outside
  have between : t.nextIndex ≤ 4 ∧ 4 < t.size := by omega
  have reserved := (answers.get_eq_forwardReference 4).2 between
  have gone : t.indexOf? "z" = none := by
    cases found : t.indexOf? "z" with
    | none => rfl
    | some i =>
        have slot := (answers.get_eq_ok i "z").1 ((answers.indexOf?_eq_some "z" i).1 found)
        exact absurd (List.mem_of_getElem? slot) (by decide)
  exact ⟨(answers.get_eq_ok 2 "p").2 rfl, (answers.indexOf?_eq_some "q" 3).2 q, gone, reserved,
    outside, answers.reserve_fst.trans size, cleared⟩

end Table

end BinaryXml
