import BinaryXml.Decoder
import BinaryXml.Proofs.Sequencing

/-!
# Postconditions of readers

What holds of all that a reader returns, whatever it reads, follows the way in which the reader is
put together.
-/

namespace BinaryXml

section Postconditions

variable {ε α β : Type} {P : β → Prop}

/-- What the reader returns has the property `P`. -/
def Ensures (p : EStateM ε Input β) (P : β → Prop) : Prop :=
  ∀ i b i', p i = .ok b i' → P b

theorem ensures_pure {b : β} (h : P b) : Ensures (pure b : EStateM ε Input β) P := by
  intro i b' i' ok
  cases ok
  exact h

theorem ensures_throw (cause : ε) : Ensures (throw cause : EStateM ε Input β) P := by
  intro i b i' ok
  cases ok

theorem Ensures.bind {p : EStateM ε Input α} {f : α → EStateM ε Input β} {Q : α → Prop}
    (first : Ensures p Q) (second : ∀ a, Q a → Ensures (f a) P) : Ensures (p >>= f) P := by
  intro i b i' ok
  obtain ⟨a, j, done, rest⟩ := bind_eq_ok ok
  exact second a (first i a j done) j b i' rest

/-- Of a reader whose result does not matter nothing has to be known. -/
theorem ensures_bind {p : EStateM ε Input α} {f : α → EStateM ε Input β}
    (h : ∀ a, Ensures (f a) P) : Ensures (p >>= f) P :=
  Ensures.bind (Q := fun _ => True) (fun _ _ _ _ => trivial) fun a _ => h a

theorem ensures_ite {c : Prop} [Decidable c] {p q : EStateM ε Input β}
    (yes : c → Ensures p P) (no : ¬c → Ensures q P) : Ensures (if c then p else q) P := by
  split
  · next h => exact yes h
  · next h => exact no h

theorem ensures_unexpected (first : UInt8) (context : String) :
    Ensures (Parser.unexpected first context) P := by
  intro i b i' ok
  cases ok

namespace Reading

theorem eq_ok_of_ofParser {p : Parser β} {i i' : Input} {b : β} (h : ofParser p i = .ok b i') :
    p i = .ok b i' := by
  unfold ofParser at h
  split at h
  · next done =>
      cases h
      exact done
  · cases h

theorem ensures_ofParser {p : Parser β} (h : Ensures p P) : Ensures (ofParser p) P :=
  fun i b i' ok => h i b i' (eq_ok_of_ofParser ok)

theorem ensures_ofExcept {r : Except CodecError β} (h : ∀ b, r = .ok b → P b) :
    Ensures (ofExcept r) P := by
  cases r with
  | ok b => exact ensures_pure (h b rfl)
  | error cause => exact ensures_throw cause

theorem ensures_ofExcept_eq (r : Except CodecError β) : Ensures (ofExcept r) (r = .ok ·) :=
  ensures_ofExcept fun _ ok => ok

end Reading

end Postconditions

end BinaryXml
