/-!
# Steps one after another

Readers, writers and encoders are programs over a state that may fail. These lemmas take a program
apart where one step is followed by another, whatever the steps are.
-/

namespace BinaryXml

variable {ε σ α β : Type} {s s' : σ} {cause : ε}

theorem bind_eq_ok {p : EStateM ε σ α} {f : α → EStateM ε σ β} {b : β}
    (h : (p >>= f) s = .ok b s') : ∃ a u, p s = .ok a u ∧ f a u = .ok b s' := by
  change EStateM.bind p f s = _ at h
  unfold EStateM.bind at h
  split at h
  · next a u first => exact ⟨a, u, first, h⟩
  · cases h

theorem bind_eq_error {p : EStateM ε σ α} {f : α → EStateM ε σ β}
    (h : (p >>= f) s = .error cause s') :
    p s = .error cause s' ∨ ∃ a u, p s = .ok a u ∧ f a u = .error cause s' := by
  change EStateM.bind p f s = _ at h
  unfold EStateM.bind at h
  split at h
  · next a u first => exact .inr ⟨a, u, first, h⟩
  · next first =>
      cases h
      exact .inl first

theorem bind_of_ok {p : EStateM ε σ α} {f : α → EStateM ε σ β} {a : α} (h : p s = .ok a s') :
    (p >>= f) s = f a s' := by
  change EStateM.bind p f s = _
  rw [EStateM.bind, h]

theorem bind_of_error {p : EStateM ε σ α} {f : α → EStateM ε σ β} (h : p s = .error cause s') :
    (p >>= f) s = .error cause s' := by
  change EStateM.bind p f s = _
  rw [EStateM.bind, h]

theorem forM_of_ok {f : β → EStateM ε σ Unit} {x : β} {xs : List β} (h : f x s = .ok () s') :
    (x :: xs).forM f s = xs.forM f s' :=
  bind_of_ok h

theorem forM_append_of_ok {f : β → EStateM ε σ Unit} {xs ys : List β}
    (h : xs.forM f s = .ok () s') : (xs ++ ys).forM f s = ys.forM f s' := by
  induction xs generalizing s with
  | nil =>
      cases h
      rfl
  | cons x xs ih =>
      obtain ⟨_, u, first, rest⟩ := bind_eq_ok h
      exact (forM_of_ok first).trans (ih rest)

/-- A loop fails at one of its elements, when it is done with those before it. -/
theorem forM_eq_error {f : β → EStateM ε σ Unit} {xs : List β}
    (h : xs.forM f s = .error cause s') :
    ∃ front x back u, xs = front ++ x :: back ∧ front.forM f s = .ok () u ∧
      f x u = .error cause s' := by
  induction xs generalizing s with
  | nil => cases h
  | cons x xs ih =>
      rcases bind_eq_error h with failed | ⟨_, u, done, rest⟩
      · exact ⟨[], x, xs, s, rfl, rfl, failed⟩
      · obtain ⟨front, y, back, v, split, before, failed⟩ := ih rest
        refine ⟨x :: front, y, back, v, by rw [split]; rfl, ?_, failed⟩
        rw [forM_of_ok done]
        exact before

/-- A step whose result may be missing, before one that needs it. -/
theorem exists_of_bind {x : Except ε α} {f : α → Except ε β} {b : β} (h : (x >>= f) = .ok b) :
    ∃ a, x = .ok a ∧ f a = .ok b := by
  cases x with
  | error cause => cases h
  | ok a => exact ⟨a, rfl, h⟩

theorem eq_ok_of_map {r : Except ε α} {f : α → β} {y : β} (h : r.map f = .ok y) :
    ∃ x, r = .ok x ∧ f x = y := by
  cases r with
  | error cause => cases h
  | ok x =>
      injection h with same
      exact ⟨x, rfl, same⟩

/-- A result is compared without its failures, which may have no decidable equality. -/
theorem eq_ok_of_toOption {r : Except ε α} {x : α} (h : r.toOption = some x) : r = .ok x := by
  cases r with
  | error cause => cases h
  | ok y => rw [Option.some.inj h]

end BinaryXml
