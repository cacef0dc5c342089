/-!
# Octet strings

Octet strings are lists, so that a reader hands on exactly what it has not read yet.
`bigEndian` writes a number in a fixed width and `ofBigEndian` reads one of any width.
-/

namespace BinaryXml

-- Powers are those of `Nat` alone, whatever algebra is in scope.
attribute [local instance (high)] instPowNat

abbrev Octets := List UInt8

/-- The number modulo `256 ^ width`, most significant octet first. -/
def bigEndian : (width n : Nat) → Octets
  | 0, _ => []
  | width + 1, n => UInt8.ofNat (n / 256 ^ width) :: bigEndian width n

def ofBigEndian (octets : Octets) : Nat :=
  octets.foldl (fun n octet => n * 256 + octet.toNat) 0

@[simp] theorem length_bigEndian (width n : Nat) : (bigEndian width n).length = width := by
  induction width with
  | zero => rfl
  | succ width ih => simp [bigEndian, ih]

theorem ofBigEndian_append (front back : Octets) :
    ofBigEndian (front ++ back) = ofBigEndian front * 256 ^ back.length + ofBigEndian back := by
  have general (start : Nat) (octets : Octets) :
      octets.foldl (fun n octet => n * 256 + octet.toNat) start =
        start * 256 ^ octets.length + ofBigEndian octets := by
    induction octets generalizing start with
    | nil => simp [ofBigEndian]
    | cons octet rest ih =>
        simp only [List.foldl_cons, ofBigEndian, List.length_cons]
        rw [ih, ih (0 * 256 + octet.toNat)]
        simp only [Nat.zero_mul, Nat.zero_add, Nat.pow_succ, Nat.add_mul]
        rw [Nat.mul_assoc, Nat.mul_comm 256, Nat.add_assoc]
  rw [ofBigEndian, List.foldl_append, general]
  rfl

theorem ofBigEndian_bigEndian (width n : Nat) :
    ofBigEndian (bigEndian width n) = n % 256 ^ width := by
  induction width with
  | zero => simp [bigEndian, ofBigEndian, Nat.mod_one]
  | succ width ih =>
      have split : bigEndian (width + 1) n =
          [UInt8.ofNat (n / 256 ^ width)] ++ bigEndian width n := rfl
      rw [split, ofBigEndian_append, ih, length_bigEndian]
      have first : ofBigEndian [UInt8.ofNat (n / 256 ^ width)] = n / 256 ^ width % 256 := by
        simp [ofBigEndian]
      rw [first, Nat.pow_succ, Nat.mod_mul, Nat.mul_comm, Nat.add_comm]

theorem ofBigEndian_cons (octet : UInt8) (rest : Octets) :
    ofBigEndian (octet :: rest) = octet.toNat * 256 ^ rest.length + ofBigEndian rest := by
  rw [← List.singleton_append, ofBigEndian_append]
  simp [ofBigEndian]

theorem ofBigEndian_lt (octets : Octets) : ofBigEndian octets < 256 ^ octets.length := by
  induction octets with
  | nil => decide
  | cons octet rest ih =>
      have bound : (octet.toNat + 1) * 256 ^ rest.length ≤ 256 * 256 ^ rest.length :=
        Nat.mul_le_mul_right _ octet.toNat_lt
      rw [Nat.add_mul] at bound
      rw [ofBigEndian_cons, List.length_cons, Nat.pow_succ, Nat.mul_comm _ 256]
      omega

/-- What lies beyond the width is not written. -/
theorem bigEndian_mul_add (width high n : Nat) :
    bigEndian width (high * 256 ^ width + n) = bigEndian width n := by
  induction width generalizing high with
  | zero => rfl
  | succ width ih =>
      have shifted : high * 256 ^ (width + 1) = high * 256 * 256 ^ width := by
        rw [Nat.pow_succ, Nat.mul_comm (256 ^ width), Nat.mul_assoc]
      rw [bigEndian, bigEndian, shifted, ih, Nat.mul_comm (high * 256),
        Nat.mul_add_div (Nat.pow_pos (by decide))]
      congr 1
      apply UInt8.toNat_inj.1
      rw [UInt8.toNat_ofNat', UInt8.toNat_ofNat', Nat.mul_comm high, Nat.mul_add_mod]

theorem bigEndian_ofBigEndian (octets : Octets) :
    bigEndian octets.length (ofBigEndian octets) = octets := by
  induction octets with
  | nil => rfl
  | cons octet rest ih =>
      have top : ofBigEndian (octet :: rest) / 256 ^ rest.length = octet.toNat := by
        rw [ofBigEndian_cons, Nat.mul_comm, Nat.mul_add_div (Nat.pow_pos (by decide)),
          Nat.div_eq_of_lt (ofBigEndian_lt rest), Nat.add_zero]
      rw [List.length_cons, bigEndian, top, UInt8.ofNat_toNat, ofBigEndian_cons,
        bigEndian_mul_add, ih]

theorem bigEndian_eq {octets : Octets} {width n : Nat} (length : octets.length = width)
    (value : ofBigEndian octets = n) : bigEndian width n = octets := by
  rw [← length, ← value, bigEndian_ofBigEndian]

/-- `bit` if the condition holds, and no bit otherwise. -/
def flagBit (condition : Bool) (bit : UInt8) : UInt8 :=
  if condition then bit else 0

end BinaryXml
