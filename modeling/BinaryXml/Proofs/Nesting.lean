/-!
# Nested items

Elements are nested like brackets, whether they are made by the calls of a writer or come out of a
reader as events. A list that is read or made one item at a time has elements open in between, so
beside the lists of whole items there are the lists that close what is open.
-/

namespace BinaryXml

/-- How an element starts and stops in a list, and what else may stand in it, `inside` of an
element or not. -/
structure Nesting (α : Type) where
  start : List α → Prop
  stop : α
  leaf : (inside : Bool) → α → Prop

namespace Nesting

variable {α : Type} {n : Nesting α} {depth : Nat}

/-- A list of whole items. -/
inductive Items (n : Nesting α) : Bool → List α → Prop
  | nil {inside : Bool} : Items n inside []
  | leaf {inside : Bool} {x : α} {rest : List α} (isLeaf : n.leaf inside x)
      (others : Items n inside rest) : Items n inside (x :: rest)
  | element {inside : Bool} {first inner rest : List α} (isStart : n.start first)
      (content : Items n true inner) (others : Items n inside rest) :
      Items n inside (first ++ inner ++ n.stop :: rest)

/-- A list of items that stops as many elements as are open, from the innermost on. -/
inductive Closing (n : Nesting α) : Nat → List α → Prop
  | last {rest : List α} (items : n.Items false rest) : Closing n 0 rest
  | stop {depth : Nat} {inner rest : List α} (content : n.Items true inner)
      (others : Closing n depth rest) : Closing n (depth + 1) (inner ++ n.stop :: rest)

theorem items_of_closing {items : List α} (h : n.Closing 0 items) : n.Items false items := by
  cases h with
  | last items => exact items

theorem closing_nil : n.Closing 0 [] := .last .nil

theorem Closing.close {rest : List α} (h : n.Closing depth rest) :
    n.Closing (depth + 1) (n.stop :: rest) :=
  .stop .nil h

theorem Closing.cons_leaf {x : α} {rest : List α} (isLeaf : n.leaf (decide (0 < depth)) x)
    (h : n.Closing depth rest) : n.Closing depth (x :: rest) := by
  cases h with
  | last items => exact .last (.leaf isLeaf items)
  | stop content others => exact .stop (.leaf (by simpa using isLeaf) content) others

/-- The element that starts is the innermost one of those that the rest stops. -/
theorem Closing.append_start {first rest : List α} (isStart : n.start first)
    (h : n.Closing (depth + 1) rest) : n.Closing depth (first ++ rest) := by
  cases h with
  | @stop _ inner _ content others =>
      cases others with
      | last items =>
          rw [← List.append_assoc]
          exact .last (.element isStart content items)
      | @stop _ inner' rest' content' others =>
          -- The new element comes first in the content of the one around it.
          have whole : n.Items true (first ++ inner ++ n.stop :: inner') :=
            .element isStart content content'
          have same : first ++ (inner ++ n.stop :: (inner' ++ n.stop :: rest')) =
              first ++ inner ++ n.stop :: inner' ++ n.stop :: rest' := by
            simp
          rw [same]
          exact .stop whole others

theorem Closing.eq_zero_of_nil (h : n.Closing depth []) : depth = 0 := by
  generalize same : ([] : List α) = all at h
  cases h with
  | last => rfl
  | stop => simp at same

/-- If elements start with a single entry, each entry of a list stands between elements, starts
one, or stops the innermost of those that are open. -/
theorem Closing.cons_cases {x : α} {rest : List α}
    (single : ∀ first, n.start first → ∃ y, first = [y]) (h : n.Closing depth (x :: rest)) :
    (n.leaf (decide (0 < depth)) x ∧ n.Closing depth rest) ∨
      (n.start [x] ∧ n.Closing (depth + 1) rest) ∨
      (x = n.stop ∧ ∃ outer, depth = outer + 1 ∧ n.Closing outer rest) := by
  generalize same : x :: rest = all at h
  cases h with
  | last items =>
      cases items with
      | nil => cases same
      | leaf isLeaf others =>
          cases same
          exact .inl ⟨isLeaf, .last others⟩
      | element isStart content others =>
          obtain ⟨y, rfl⟩ := single _ isStart
          cases same
          exact .inr (.inl ⟨isStart, .stop content (.last others)⟩)
  | @stop outer inner rest' content others =>
      cases content with
      | nil =>
          cases same
          exact .inr (.inr ⟨rfl, outer, rfl, others⟩)
      | leaf isLeaf items =>
          cases same
          exact .inl ⟨isLeaf, .stop items others⟩
      | @element _ first inner' rest'' isStart content' items =>
          obtain ⟨y, rfl⟩ := single _ isStart
          have split : [y] ++ inner' ++ n.stop :: rest'' ++ n.stop :: rest' =
              y :: (inner' ++ n.stop :: (rest'' ++ n.stop :: rest')) := by simp
          rw [split] at same
          cases same
          exact .inr (.inl ⟨isStart, .stop content' (.stop items others)⟩)

end Nesting

end BinaryXml
