import BinaryXml.Proofs.TableRuns

/-!
# Reservations in a table

A writer may set indices aside long before the entries that take them are there, while a reader
only appends. Settling a table commutes with every operation except a reservation, which it does
not see at all; hence a run and the same run without its reservations assign the same indices. An
index that was set aside is returned by the addition that fills its slot, and by no other.
-/

namespace BinaryXml

def TableOperation.isReserve {α : Type} : TableOperation α → Bool
  | .reserve => true
  | _ => false

/-- What a reader would do in the place of a writer. -/
def TableOperation.withoutReservations {α : Type} (operations : List (TableOperation α)) :
    List (TableOperation α) :=
  operations.filter fun operation => !operation.isReserve

namespace Table

open TableOperation

variable {kind : TableKind} {α : Type} [DecidableEq α] [Hashable α] [Shown α]

/-- What the additions of a run return, in their order. -/
def additions (t : Table kind α) : List (TableOperation α) → List (Except VocabularyError Nat)
  | [] => []
  | .add v :: operations => (t.add v).map (·.1) :: (t.after (.add v)).additions operations
  | .reserve :: operations => (t.after .reserve).additions operations
  | .clear :: operations => (t.after .clear).additions operations

/-- What two tables have in common that differ in their reservations at most. -/
structure Agrees (t t' : Table kind α) : Prop where
  entries_eq : t.entries = t'.entries
  indexOf?_eq (v : α) : t.indexOf? v = t'.indexOf? v
  nextIndex_eq : t.nextIndex = t'.nextIndex
  isFull_eq : t.isFull = t'.isFull

variable {t : Table kind α} {v : α} {i : Nat}

/-! ## Runs without reservations -/

omit [Shown α] in
theorem agrees_settled (t : Table kind α) : t.Agrees t.settled :=
  ⟨rfl, fun _ => rfl, rfl, rfl⟩

theorem add_settled : (t.settled.add v).map (·.1) = (t.add v).map (·.1) := by
  by_cases known : v ∈ t.toList
  · have known' : v ∈ t.settled.toList := known
    rw [add_of_mem known, add_of_mem known']
  · have new : v ∉ t.settled.toList := known
    rw [add_of_notMem known, add_of_notMem new]
    rfl

theorem settled_after_add : (t.after (.add v)).settled = t.settled.after (.add v) := by
  by_cases known : v ∈ t.toList
  · have known' : v ∈ t.settled.toList := known
    simp only [after, add_of_mem known, add_of_mem known']
  · have new : v ∉ t.settled.toList := known
    simp only [after, add_of_notMem known, add_of_notMem new]
    rfl

theorem settled_after {operation : TableOperation α} (other : operation.isReserve = false) :
    (t.after operation).settled = t.settled.after operation := by
  cases operation with
  | add v => exact settled_after_add
  | reserve => cases other
  | clear => rfl

theorem settled_run (t : Table kind α) (operations : List (TableOperation α)) :
    (t.run operations).settled = t.settled.run (withoutReservations operations) := by
  induction operations generalizing t with
  | nil => rfl
  | cons operation operations ih =>
      have rest := ih (t.after operation)
      cases isReserve : operation.isReserve with
      | true =>
          cases operation with
          | reserve => exact rest
          | add v => cases isReserve
          | clear => cases isReserve
      | false =>
          have kept : withoutReservations (operation :: operations) =
              operation :: withoutReservations operations := by
            simp [withoutReservations, isReserve]
          rw [settled_after isReserve] at rest
          rw [kept]
          exact rest

theorem additions_settled (t : Table kind α) (operations : List (TableOperation α)) :
    t.settled.additions (withoutReservations operations) = t.additions operations := by
  induction operations generalizing t with
  | nil => rfl
  | cons operation operations ih =>
      have rest := ih (t.after operation)
      cases operation with
      | add v =>
          rw [settled_after_add] at rest
          rw [additions, ← rest, ← add_settled]
          rfl
      | reserve => exact rest
      | clear => exact rest

/-! ## Slots set aside -/

theorem size_le_size_after {operation : TableOperation α} (kept : operation ≠ .clear) :
    t.size ≤ (t.after operation).size := by
  cases operation with
  | add v =>
      by_cases known : v ∈ t.toList
      · simp only [after, add_of_mem known, Nat.le_refl]
      · have left : ∀ isNew, (t.insert v isNew).reserved = t.reserved - 1 := fun _ => rfl
        simp only [after, add_of_notMem known, size, nextIndex_insert, left]
        omega
  | reserve => exact Nat.le_succ _
  | clear => exact absurd rfl kept

/-- Only clearing takes slots away. -/
theorem size_le_size_run {operations : List (TableOperation α)} (kept : .clear ∉ operations) :
    t.size ≤ (t.run operations).size := by
  induction operations generalizing t with
  | nil => exact Nat.le_refl _
  | cons operation operations ih =>
      have notClear : operation ≠ .clear := fun clear => kept (clear ▸ List.mem_cons_self)
      have rest : .clear ∉ operations := fun clears => kept (List.mem_cons_of_mem _ clears)
      exact Nat.le_trans (size_le_size_after notClear) (ih rest)

omit [Shown α] in
theorem exists_get_eq_ok_iff : (∃ w, t.get i = .ok w) ↔ i < t.nextIndex := by
  rcases t.get_cases i with ⟨inside, v, held⟩ | ⟨outside, -, held⟩ | ⟨beyond, held⟩
  · simp [held, inside]
  · simp [held, outside]
  · have outside : t.nextIndex ≤ i := Nat.le_trans (Nat.le_add_right _ _) beyond
    simp [held, outside]

/-- The slot that an addition fills is the one whose index it returns. -/
theorem add_fst_eq_iff (inside : i < t.size) :
    (t.add v).map (·.1) = .ok i ↔
      t.get i = .error (.forwardReference kind i) ∧ ∃ w, (t.after (.add v)).get i = .ok w := by
  rw [get_eq_forwardReference_iff, exists_get_eq_ok_iff]
  by_cases known : v ∈ t.toList
  · simp only [after, add_of_mem known]
    simp [Except.map]
    omega
  · simp only [after, add_of_notMem known, nextIndex_insert]
    simp [Except.map]
    omega

/-- A run returns the same indices and errors for its additions, and ends with the same entries, if
its reservations are left out. An index that is set aside, and not lost by clearing the table, is
returned by an addition just if this fills the slot. -/
theorem agrees_run_withoutReservations (kind : TableKind) (base : Roster α) :
    let t : Table kind α := { base }
    (∀ operations, t.additions operations = t.additions (withoutReservations operations) ∧
      (t.run operations).Agrees (t.run (withoutReservations operations))) ∧
    ∀ (before between : List (TableOperation α)) (v : α), .clear ∉ between →
      let index := (t.run before).reserve.1
      let adding := t.run (before ++ .reserve :: between)
      (adding.add v).map (·.1) = .ok index ↔
        adding.get index = .error (.forwardReference kind index) ∧
          ∃ w, (adding.after (.add v)).get index = .ok w := by
  intro t
  refine ⟨fun operations => ⟨(t.additions_settled operations).symm, ?_⟩, ?_⟩
  · have settled : (t.run operations).settled = t.run (withoutReservations operations) :=
      t.settled_run operations
    rw [← settled]
    exact agrees_settled _
  · intro before between v kept
    have joined : t.run (before ++ .reserve :: between) = (t.run before).reserve.2.run between :=
      List.foldl_append
    have room : (t.run before).size + 1 ≤ (t.run (before ++ .reserve :: between)).size := by
      rw [joined]
      exact size_le_size_run (t := (t.run before).reserve.2) kept
    exact add_fst_eq_iff room

/-- Index 4 is set aside while index 3 still waits, and its slot is filled when its turn comes. -/
theorem agrees_run_withoutReservations_fourth :
    ∃ base, Roster.base (.strings .localName) ["x", "y"] = .ok base ∧
      let t : Table (.strings .localName) String := { base }
      .clear ∉ ([.add "p", .add "x", .reserve] : List (TableOperation String)) ∧
        let adding := t.run [.add "z", .reserve, .reserve, .add "p", .add "x", .reserve]
        (t.run [.add "z", .reserve]).reserve.1 = 4 ∧ (adding.add "q").map (·.1) = .ok 4 ∧
          adding.get 4 = .error (.forwardReference (.strings .localName) 4) ∧
          (∃ w, (adding.after (.add "q")).get 4 = .ok w) ∧
          t.additions [.add "z", .reserve, .reserve, .add "p", .add "x", .reserve, .add "q"] =
            t.additions [.add "z", .add "p", .add "x", .add "q"] := by
  have exists_base : ∃ base, Roster.base (.strings .localName) ["x", "y"] = .ok base :=
    Roster.exists_base (by decide)
  obtain ⟨base, built⟩ := exists_base
  refine ⟨base, built, ?_⟩
  intro t
  have tracks (operations : List (TableOperation String)) :
      (t.run operations).Tracks (Register.run ["x", "y"] operations) := by
    have reached := (tracks_base base : t.Tracks _).run operations
    rwa [Roster.toList_of_base built] at reached
  have kept : .clear ∉ ([.add "p", .add "x", .reserve] : List (TableOperation String)) := by
    rintro (_ | ⟨_, _ | ⟨_, _ | ⟨_, ⟨⟩⟩⟩⟩)
  refine ⟨kept, ?_⟩
  intro adding
  obtain ⟨invisible, filled⟩ := agrees_run_withoutReservations (.strings .localName) base
  have index : (t.run [.add "z", .reserve]).size = 4 :=
    (tracks [.add "z", .reserve]).length_slots.symm.trans (by decide)
  have between := tracks [.add "z", .reserve, .reserve, .add "p", .add "x", .reserve]
  rw [show Register.run ["x", "y"]
      [.add "z", .reserve, .reserve, .add "p", .add "x", .reserve] =
    { slots := [some "x", some "y", some "z", some "p", none, none], waiting := [4, 5] }
    by decide] at between
  have next : adding.nextIndex = 4 := between.nextSlot_eq.symm
  have new : "q" ∉ adding.toList := fun known => absurd (between.mem_slots.2 known) (by decide)
  have returned : (adding.add "q").map (·.1) = .ok 4 := by
    rw [add_of_notMem new, next]
    rfl
  have fills := (filled [.add "z", .reserve] [.add "p", .add "x", .reserve] "q" kept).1
  rw [show (t.run [.add "z", .reserve]).reserve.1 = 4 from index] at fills
  exact ⟨index, returned, (fills returned).1, (fills returned).2, (invisible _).1⟩

end Table

end BinaryXml
