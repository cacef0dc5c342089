import BinaryXml.CharacterEncoding
import BinaryXml.Decoder
import BinaryXml.Proofs.Sequencing

/-!
# What readers make of given octets

A reader that meets `octets` in front of any input becomes another reader of what follows them.
It yields a value if nothing is left for it to do, and refuses the octets if they make it fail
whatever comes next. Round trips are stated in these terms, since they compose along `++` in the
order in which a reader binds its parts.
-/

namespace BinaryXml

variable {ε α β : Type}

/-- Having read `octets`, the reader `p` goes on as `k`. -/
def Becomes (p : EStateM ε Input α) (octets : Octets) (k : EStateM ε Input α) : Prop :=
  ∀ rest offset, p ⟨octets ++ rest, offset⟩ = k ⟨rest, offset + octets.length⟩

def Yields (p : EStateM ε Input α) (octets : Octets) (a : α) : Prop :=
  Becomes p octets (pure a)

def Refuses (p : EStateM ε Input α) (octets : Octets) (cause : ε) : Prop :=
  ∀ rest offset, ∃ i, p ⟨octets ++ rest, offset⟩ = .error cause i

theorem Becomes.refl (p : EStateM ε Input α) : Becomes p [] p := fun _ _ => rfl

theorem Becomes.trans {p k l : EStateM ε Input α} {front back : Octets} (h : Becomes p front k)
    (h' : Becomes k back l) : Becomes p (front ++ back) l := by
  intro rest offset
  rw [List.append_assoc, h, h', List.length_append, Nat.add_assoc]

theorem Becomes.of_eq {p k l : EStateM ε Input α} {octets : Octets} (h : Becomes p octets k)
    (same : k = l) : Becomes p octets l := same ▸ h

/-- What needs no octets leaves them to what follows. -/
theorem Becomes.before {p k l : EStateM ε Input α} {octets : Octets} (h : Becomes p [] k)
    (h' : Becomes k octets l) : Becomes p octets l := h.trans h'

theorem Becomes.yields {p k : EStateM ε Input α} {front back : Octets} {a : α}
    (h : Becomes p front k) (h' : Yields k back a) : Yields p (front ++ back) a :=
  h.trans h'

/-- What is left to do may need no further octets. -/
theorem Becomes.done {p k : EStateM ε Input α} {octets : Octets} {a : α}
    (h : Becomes p octets k) (h' : Yields k [] a) : Yields p octets a := by
  have := h.yields h'
  rwa [List.append_nil] at this

theorem Becomes.refuses {p k : EStateM ε Input α} {front back : Octets} {cause : ε}
    (h : Becomes p front k) (h' : Refuses k back cause) : Refuses p (front ++ back) cause := by
  intro rest offset
  rw [List.append_assoc, h]
  exact h' rest _

theorem Refuses.append {p : EStateM ε Input α} {octets : Octets} {cause : ε}
    (h : Refuses p octets cause) (more : Octets) : Refuses p (octets ++ more) cause := by
  intro rest offset
  rw [List.append_assoc]
  exact h _ offset

theorem Yields.ok {p : EStateM ε Input α} {octets : Octets} {a : α} (h : Yields p octets a)
    (rest : Octets) (offset : Nat) :
    p ⟨octets ++ rest, offset⟩ = .ok a ⟨rest, offset + octets.length⟩ :=
  h rest offset

theorem yields_pure (a : α) : Yields (pure a : EStateM ε Input α) [] a := Becomes.refl _

/-- A bound reader goes on with what its first part yields. -/
theorem Yields.bind {p : EStateM ε Input α} {f : α → EStateM ε Input β} {octets : Octets} {a : α}
    (h : Yields p octets a) : Becomes (p >>= f) octets (f a) :=
  fun rest offset => bind_of_ok (h.ok rest offset)

theorem Yields.map {p : EStateM ε Input α} {octets : Octets} {a : α} (h : Yields p octets a)
    (f : α → β) : Yields (f <$> p) octets (f a) := by
  intro rest offset
  change EStateM.map f p _ = _
  unfold EStateM.map
  rw [h.ok rest offset]
  rfl

theorem Refuses.bind {p : EStateM ε Input α} {f : α → EStateM ε Input β} {octets : Octets}
    {cause : ε} (h : Refuses p octets cause) : Refuses (p >>= f) octets cause := by
  intro rest offset
  obtain ⟨i, hi⟩ := h rest offset
  exact ⟨i, bind_of_error hi⟩

namespace Parser

theorem yields_octet (o : UInt8) : Yields octet [o] o := fun _ _ => rfl

theorem yields_slice (octets : Octets) : Yields (slice octets.length) octets octets := by
  intro rest offset
  simp [slice, pure, EStateM.pure]

theorem yields_octets (os : Octets) : Yields (octets os.length) os os := by
  induction os with
  | nil => exact yields_pure _
  | cons first rest ih =>
      have front : Becomes (octets (rest.length + 1)) [first] (do
          let rest ← octets rest.length
          return first :: rest) := (yields_octet first).bind
      exact front.yields ih.bind

theorem yields_text {encoding : CharacterEncoding} {octets : Octets} {value : String}
    (h : encoding.decode octets = .ok value) : Yields (text encoding octets) [] value := by
  rw [text, h]
  exact yields_pure _

end Parser

namespace Reading

theorem yields_ofParser {p : Parser α} {octets : Octets} {a : α} (h : Yields p octets a) :
    Yields (ofParser p) octets a := by
  intro rest offset
  rw [ofParser, h.ok rest offset]
  rfl

theorem yields_ofExcept {r : Except CodecError α} {a : α} (h : r = .ok a) :
    Yields (ofExcept r) [] a := by
  rw [h]
  exact yields_pure a

theorem ofExcept_map_bind {β γ : Type} (r : Except CodecError α) (g : α → β)
    (f : β → Reading γ) : (ofExcept (r.map g) >>= f) = (ofExcept r >>= fun a => f (g a)) := by
  cases r <;> rfl

end Reading

end BinaryXml
