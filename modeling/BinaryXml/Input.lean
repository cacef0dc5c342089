import BinaryXml.FormatError

/-!
# Reading from octets

A `Parser` consumes octets from the front of an input. When it fails, the input it leaves tells
how far it came. The input carries what is left to read, so whatever was read is out of reach:
`Consumes` says that a reader only moves forward, and `rest_length_lt_of_octet` that one which
begins with an octet does move.
-/

namespace BinaryXml

structure Input where
  rest : Octets
  /-- How many octets were read before `rest`. -/
  offset : Nat := 0

namespace Input

/-- Where the octets end, counted from the first that was ever there. -/
def total (i : Input) : Nat := i.offset + i.rest.length

/-- The later input lacks some octets in front and is otherwise the same. -/
structure Follows (later earlier : Input) : Prop where
  rest_suffix : later.rest <:+ earlier.rest
  total_eq : later.total = earlier.total

namespace Follows

theorem refl (i : Input) : i.Follows i := ⟨List.suffix_refl _, rfl⟩

theorem trans {i j k : Input} (h : k.Follows j) (h' : j.Follows i) : k.Follows i :=
  ⟨h.rest_suffix.trans h'.rest_suffix, h.total_eq.trans h'.total_eq⟩

end Follows

end Input

section Consumption

variable {ε α β : Type}

/-- A successful run leaves an input that follows the one it began with. -/
def Consumes (p : EStateM ε Input α) : Prop :=
  ∀ i a i', p i = .ok a i' → i'.Follows i

theorem consumes_pure (a : α) : Consumes (pure a : EStateM ε Input α) := by
  intro i b i' h
  cases h
  exact .refl _

theorem consumes_throw (e : ε) : Consumes (throw e : EStateM ε Input α) := by
  intro i a i' h
  cases h

theorem consumes_bind {p : EStateM ε Input α} {f : α → EStateM ε Input β} (hp : Consumes p)
    (hf : ∀ a, Consumes (f a)) : Consumes (p >>= f) := by
  intro i b i' h
  change EStateM.bind p f i = _ at h
  unfold EStateM.bind at h
  split at h
  · next a j hj => exact (hf a j b i' h).trans (hp i a j hj)
  · cases h

theorem consumes_map {p : EStateM ε Input α} (f : α → β) (hp : Consumes p) :
    Consumes (f <$> p) :=
  consumes_bind hp fun a => consumes_pure (f a)

theorem consumes_ite {c : Prop} [Decidable c] {p q : EStateM ε Input α} (hp : Consumes p)
    (hq : Consumes q) : Consumes (if c then p else q) := by
  split
  · exact hp
  · exact hq

end Consumption

abbrev Parser := EStateM FormatError Input

namespace Parser

/-- The octet that would be read next. -/
def peek : Parser UInt8 := fun input =>
  match input.rest with
  | [] => .error (.unexpectedEnd input.offset) input
  | octet :: _ => .ok octet input

def octet : Parser UInt8 := fun input =>
  match input.rest with
  | [] => .error (.unexpectedEnd input.offset) input
  | octet :: rest => .ok octet ⟨rest, input.offset + 1⟩

/-- Exactly `count` octets, or none of them. -/
def slice (count : Nat) : Parser Octets := fun input =>
  let taken := input.rest.take count
  if taken.length = count then .ok taken ⟨input.rest.drop count, input.offset + count⟩
  else .error (.unexpectedEnd (input.offset + input.rest.length)) input

/-- `count` octets one after another: if they run out, those present are consumed. -/
def octets : (count : Nat) → Parser Octets
  | 0 => pure []
  | count + 1 => do
    let first ← octet
    let rest ← octets count
    return first :: rest

/-- Refuses an octet that was just read. -/
def unexpected {α : Type} (octet : UInt8) (context : String) : Parser α := fun input =>
  .error (.unexpectedOctet octet (input.offset - 1) context) input

def ofExcept {α : Type} : Except FormatError α → Parser α
  | .ok a => pure a
  | .error e => throw e

theorem consumes_octet : Consumes octet := by
  intro i a i' h
  unfold octet at h
  split at h
  · cases h
  · next hi =>
      cases h
      exact ⟨hi ▸ List.suffix_cons _ _, by simp [Input.total, hi]; omega⟩

theorem consumes_slice (count : Nat) : Consumes (slice count) := by
  intro i a i' h
  unfold slice at h
  dsimp only at h
  split at h
  · next enough =>
      cases h
      rw [List.length_take] at enough
      exact ⟨List.drop_suffix _ _, by simp only [Input.total, List.length_drop]; omega⟩
  · cases h

theorem consumes_octets (count : Nat) : Consumes (octets count) := by
  induction count with
  | zero => exact consumes_pure _
  | succ count ih =>
      exact consumes_bind consumes_octet fun _ => consumes_bind ih fun _ => consumes_pure _

theorem consumes_unexpected {α : Type} (octet : UInt8) (context : String) :
    Consumes (unexpected octet context : Parser α) := by
  intro i a i' h
  cases h

theorem consumes_ofExcept {α : Type} (r : Except FormatError α) : Consumes (ofExcept r) := by
  cases r with
  | ok a => exact consumes_pure a
  | error e => exact consumes_throw e

theorem rest_length_lt_of_octet {i i' : Input} {first : UInt8} (h : octet i = .ok first i') :
    i'.rest.length < i.rest.length := by
  unfold octet at h
  split at h
  · cases h
  · next hi =>
      cases h
      simp [hi]

end Parser

end BinaryXml
