import BinaryXml.FormatError

/-!
# Writing octets

An emission is what a value contributes to the octets, together with the cause that cut it short,
if there is one. Emissions follow each other by `++`; nothing follows one that was cut short.
-/

namespace BinaryXml

structure Emission where
  octets : Octets
  failure? : Option FormatError := none

namespace Emission

def done (octets : Octets) : Emission := ⟨octets, none⟩

def failed (cause : FormatError) : Emission := ⟨[], some cause⟩

def append (first second : Emission) : Emission :=
  match first.failure? with
  | none => ⟨first.octets ++ second.octets, second.failure?⟩
  | some _ => first

instance : Append Emission := ⟨append⟩

def join (parts : List Emission) : Emission :=
  parts.foldr (· ++ ·) (done [])

def toExcept (e : Emission) : Except FormatError Octets :=
  match e.failure? with
  | none => .ok e.octets
  | some cause => .error cause

@[simp] theorem complete_append (front : Octets) (second : Emission) :
    (⟨front, none⟩ : Emission) ++ second = ⟨front ++ second.octets, second.failure?⟩ := rfl

@[simp] theorem cut_append (front : Octets) (cause : FormatError) (second : Emission) :
    (⟨front, some cause⟩ : Emission) ++ second = ⟨front, some cause⟩ := rfl

@[simp] theorem toExcept_done (octets : Octets) : (done octets).toExcept = .ok octets := rfl

/-- Two emissions together succeed exactly when both do. -/
theorem toExcept_append_eq_ok {first second : Emission} {octets : Octets} :
    (first ++ second).toExcept = .ok octets ↔
      ∃ front back, first.toExcept = .ok front ∧ second.toExcept = .ok back ∧
        octets = front ++ back := by
  obtain ⟨front, _ | cause⟩ := first
  · obtain ⟨back, _ | cause⟩ := second
    · simp [toExcept, eq_comm]
    · simp [toExcept]
  · simp [toExcept]

end Emission

end BinaryXml
