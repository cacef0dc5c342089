import BinaryXml.AlphabetRegistry

/-!
# Reading back packed text

Octets are looked at as one number of known width. Packing makes it the codes of the text in a
row, with fewer than eight zero bits behind them; unpacking takes codes off its top until one is
zero or too few bits are left.
-/

namespace BinaryXml

namespace Alphabet

-- Powers are those of `Nat` alone, whatever algebra is in scope.
attribute [local instance (high)] instPowNat

/-- The bits of `low` do not reach into those above them. -/
theorem div_above {low base : Nat} (high shift : Nat) (h : low < base) :
    (high * base + low) / (base * shift) = high / shift := by
  rw [← Nat.div_div_eq_div_mul, Nat.mul_comm high base, Nat.mul_add_div (by omega),
    Nat.div_eq_of_lt h, Nat.add_zero]

theorem mod_above {low base : Nat} (high shift : Nat) (h : low < base) :
    (high * base + low) % (base * shift) = high % shift * base + low := by
  rw [Nat.mod_mul, Nat.mul_comm high base, Nat.mul_add_mod, Nat.mod_eq_of_lt h,
    Nat.mul_add_div (by omega), Nat.div_eq_of_lt h, Nat.add_zero, Nat.mul_comm base, Nat.add_comm]

/-- Bits put behind others are as many as both together. -/
theorem behind_lt {held code pending width : Nat} (hheld : held < 2 ^ pending)
    (hcode : code < 2 ^ width) : held * 2 ^ width + code < 2 ^ (pending + width) := by
  have room := Nat.mul_le_mul_right (2 ^ width) (Nat.succ_le_of_lt hheld)
  rw [← Nat.pow_add, Nat.succ_mul] at room
  omega

variable (a : Alphabet)

/-- Takes codes off the top of a number of `bits` bits. -/
def unpackNumber (id : UInt8) (number bits : Nat) : Except AlphabetError (List Char) :=
  if a.width ≤ bits then
    let left := bits - a.width
    let code := number / 2 ^ left
    if code = 0 then .ok []
    else
      match a.characters.get? (code - 1) with
      | none => .error (.invalidCode id code)
      | some c => (unpackNumber id (number % 2 ^ left) left).map (c :: ·)
  else .ok []
termination_by bits
decreasing_by simp only [width] at *; omega

/-- Octet by octet or all at once, the same codes come off. -/
theorem unpack_eq_unpackNumber (id : UInt8) (held available : Nat) (octets : Octets) :
    a.unpack id held available octets =
      a.unpackNumber id (held * 256 ^ octets.length + ofBigEndian octets)
        (available + 8 * octets.length) := by
  have scale (left : Nat) (octets : Octets) :
      2 ^ (left + 8 * octets.length) = 256 ^ octets.length * 2 ^ left := by
    rw [Nat.pow_add, Nat.pow_mul, Nat.mul_comm]
  have code_eq (held left : Nat) (octets : Octets) :
      (held * 256 ^ octets.length + ofBigEndian octets) / 2 ^ (left + 8 * octets.length) =
        held / 2 ^ left := by
    rw [scale, div_above _ _ (ofBigEndian_lt octets)]
  have rest_eq (held left : Nat) (octets : Octets) :
      (held * 256 ^ octets.length + ofBigEndian octets) % 2 ^ (left + 8 * octets.length) =
        held % 2 ^ left * 256 ^ octets.length + ofBigEndian octets := by
    rw [scale, mod_above _ _ (ofBigEndian_lt octets)]
  have left_eq {available : Nat} (enough : a.width ≤ available) (octets : Octets) :
      available + 8 * octets.length - a.width = available - a.width + 8 * octets.length := by
    omega
  fun_induction Alphabet.unpack a id held available octets with
  | case1 held available octets enough left code zero =>
      rw [unpackNumber, if_pos (by omega)]
      simp only [left_eq enough, code_eq]
      rw [if_pos zero]
  | case2 held available octets enough left code nonzero missing =>
      rw [unpackNumber, if_pos (by omega)]
      simp only [left_eq enough, code_eq]
      rw [if_neg nonzero, missing]
  | case3 held available octets enough left code nonzero c found ih =>
      rw [unpackNumber, if_pos (by omega)]
      simp only [left_eq enough, code_eq, rest_eq]
      rw [if_neg nonzero, found, ih]
  | case4 held available few =>
      rw [unpackNumber, if_neg (by simpa using few)]
  | case5 held available few octet rest ih =>
      have split := ofBigEndian_append [octet] rest
      have top : ofBigEndian [octet] = octet.toNat := by simp [ofBigEndian]
      rw [List.singleton_append, top] at split
      have number : held * 256 ^ (rest.length + 1) +
          (octet.toNat * 256 ^ rest.length + ofBigEndian rest) =
          (held * 256 + octet.toNat) * 256 ^ rest.length + ofBigEndian rest := by
        rw [Nat.pow_succ, Nat.add_mul, Nat.mul_assoc, Nat.mul_comm 256, Nat.add_assoc]
      have bits : available + 8 * (rest.length + 1) = available + 8 + 8 * rest.length := by omega
      rw [ih, split, List.length_cons, number, bits]

theorem size_ofDistinct (cs : List Char) (distinct : cs.Nodup) (long : 2 ≤ cs.length) :
    (ofDistinct cs distinct long).size = cs.length := by
  have : (Roster.ofNodup cs distinct).toList.length = cs.length := by rw [Roster.toList_ofNodup]
  rwa [Roster.toList, Array.length_toList] at this

theorem size_lt_two_pow_width : a.size < 2 ^ a.width := by
  exact Nat.lt_log2_self

theorem code?_eq_some {c : Char} {code : Nat} (h : a.code? c = some code) :
    code ≠ 0 ∧ code < 2 ^ a.width ∧ a.characters.get? (code - 1) = some c := by
  rw [code?, Option.map_eq_some_iff] at h
  obtain ⟨i, hi, rfl⟩ := h
  have bound : i < a.size := Roster.indexOf?_lt_size hi
  have := a.size_lt_two_pow_width
  exact ⟨by omega, by omega, Roster.indexOf?_eq_some.1 hi⟩

/-- The codes of a text in a row behind the bits of `held`. -/
def row (held : Nat) : List Char → Nat
  | [] => held
  | c :: cs => row (held * 2 ^ a.width + (a.code? c).getD 0) cs

theorem row_eq (held : Nat) (cs : List Char) :
    a.row held cs = held * 2 ^ (a.width * cs.length) + a.row 0 cs := by
  induction cs generalizing held with
  | nil => simp [row]
  | cons c cs ih =>
      rw [row, ih, row, ih (0 * _ + _), List.length_cons, Nat.mul_succ,
        Nat.add_comm (a.width * _), Nat.pow_add]
      simp only [Nat.zero_mul, Nat.zero_add, Nat.add_mul, Nat.mul_assoc, Nat.add_assoc]

/-- Packed octets are the row of codes, filled up to a whole octet. -/
theorem ofBigEndian_pack {id : UInt8} {held pending : Nat} (hheld : held < 2 ^ pending)
    (hpending : pending < 8) {cs : List Char} {octets : Octets}
    (h : a.pack id held pending cs = .ok octets) :
    ∃ fill, fill < 8 ∧ 8 * octets.length = pending + a.width * cs.length + fill ∧
      ofBigEndian octets = a.row held cs * 2 ^ fill := by
  induction cs generalizing held pending octets with
  | nil =>
      unfold pack at h
      split at h
      · next empty =>
          cases h
          subst empty
          have : held = 0 := by simpa using hheld
          exact ⟨0, by omega, by simp, by simp [row, ofBigEndian, this]⟩
      · next filled =>
          cases h
          have small : held * 2 ^ (8 - pending) < 256 := by
            have := Nat.mul_lt_mul_of_pos_right hheld (Nat.two_pow_pos (8 - pending))
            rwa [← Nat.pow_add, Nat.add_sub_cancel' (by omega)] at this
          refine ⟨8 - pending, by omega, by simp; omega, ?_⟩
          simp [ofBigEndian, row, Nat.mod_eq_of_lt small]
  | cons c cs ih =>
      unfold pack at h
      split at h
      · cases h
      · next code hcode =>
          obtain ⟨-, small, -⟩ := a.code?_eq_some hcode
          simp only at h
          generalize hbits : held * 2 ^ a.width + code = bits at h
          generalize hcount : pending + a.width = count at h
          obtain ⟨back, hback, rfl⟩ : ∃ back, a.pack id (bits % 2 ^ (count % 8)) (count % 8) cs =
              .ok back ∧ bigEndian (count / 8) (bits / 2 ^ (count % 8)) ++ back = octets := by
            cases hp : a.pack id (bits % 2 ^ (count % 8)) (count % 8) cs with
            | error cause => rw [hp] at h; cases h
            | ok back => rw [hp] at h; cases h; exact ⟨back, rfl, rfl⟩
          obtain ⟨fill, hfill, hlength, hnumber⟩ :=
            ih (Nat.mod_lt _ (Nat.two_pow_pos _)) (Nat.mod_lt _ (by omega)) hback
          have bound : bits < 2 ^ count := hbits ▸ hcount ▸ behind_lt hheld small
          have whole : bits / 2 ^ (count % 8) < 256 ^ (count / 8) := by
            rw [Nat.div_lt_iff_lt_mul (Nat.two_pow_pos _), show 256 = 2 ^ 8 from rfl,
              ← Nat.pow_mul, ← Nat.pow_add, Nat.div_add_mod]
            exact bound
          refine ⟨fill, hfill, ?_, ?_⟩
          · rw [List.length_append, length_bigEndian, List.length_cons, Nat.mul_succ]
            omega
          · rw [ofBigEndian_append, ofBigEndian_bigEndian, Nat.mod_eq_of_lt whole, hnumber, row,
              hcode, Option.getD_some, hbits, a.row_eq (bits % _), a.row_eq bits]
            have scale : (256 : Nat) ^ back.length =
                2 ^ (count % 8) * 2 ^ (a.width * cs.length) * 2 ^ fill := by
              rw [show 256 = 2 ^ 8 from rfl, ← Nat.pow_mul, hlength, Nat.pow_add, Nat.pow_add]
            have join := Nat.div_add_mod bits (2 ^ (count % 8))
            generalize bits / 2 ^ (count % 8) = high at *
            generalize bits % 2 ^ (count % 8) = low at *
            rw [scale, ← join, ← Nat.mul_assoc, ← Nat.add_mul, ← Nat.mul_assoc, ← Nat.add_assoc,
              ← Nat.add_mul, Nat.mul_comm high]

theorem row_lt {cs : List Char} (h : ∀ c ∈ cs, (a.code? c).isSome) :
    a.row 0 cs < 2 ^ (a.width * cs.length) := by
  induction cs with
  | nil => simp [row]
  | cons c cs ih =>
      obtain ⟨code, hcode⟩ := Option.isSome_iff_exists.1 (h c List.mem_cons_self)
      obtain ⟨-, small, -⟩ := a.code?_eq_some hcode
      have rest := ih fun d hd => h d (List.mem_cons_of_mem _ hd)
      have bound := Nat.mul_le_mul_right (2 ^ (a.width * cs.length)) (Nat.succ_le_of_lt small)
      rw [row, a.row_eq, hcode, List.length_cons, Nat.mul_succ, Nat.add_comm (a.width * _),
        Nat.pow_add]
      simp only [Nat.zero_mul, Nat.zero_add, Option.getD_some]
      rw [Nat.succ_mul] at bound
      omega

/-- The zero bits behind the last code end the text, or are too few for another code. -/
theorem unpackNumber_row (id : UInt8) {cs : List Char} (h : ∀ c ∈ cs, (a.code? c).isSome)
    (fill : Nat) :
    a.unpackNumber id (a.row 0 cs * 2 ^ fill) (a.width * cs.length + fill) = .ok cs := by
  induction cs with
  | nil =>
      rw [unpackNumber]
      simp [row]
  | cons c cs ih =>
      obtain ⟨code, hcode⟩ := Option.isSome_iff_exists.1 (h c List.mem_cons_self)
      obtain ⟨nonzero, small, found⟩ := a.code?_eq_some hcode
      have known : ∀ d ∈ cs, (a.code? d).isSome := fun d hd => h d (List.mem_cons_of_mem _ hd)
      have low : a.row 0 cs * 2 ^ fill < 2 ^ (a.width * cs.length + fill) := by
        rw [Nat.pow_add]
        exact Nat.mul_lt_mul_of_pos_right (a.row_lt known) (Nat.two_pow_pos _)
      have left : a.width * (c :: cs).length + fill - a.width = a.width * cs.length + fill := by
        rw [List.length_cons, Nat.mul_succ]
        omega
      have number : a.row 0 (c :: cs) * 2 ^ fill =
          code * 2 ^ (a.width * cs.length + fill) + a.row 0 cs * 2 ^ fill := by
        rw [row, a.row_eq, hcode, Nat.pow_add]
        simp [Nat.add_mul, Nat.mul_assoc]
      have top := div_above code 1 low
      have rest := mod_above code 1 low
      rw [Nat.mul_one, Nat.div_one] at top
      rw [Nat.mul_one, Nat.mod_one, Nat.zero_mul, Nat.zero_add] at rest
      rw [unpackNumber, if_pos (by rw [List.length_cons, Nat.mul_succ]; omega)]
      simp only [left, number, top, rest]
      rw [if_neg nonzero, found, ih known]
      rfl

theorem isSome_code?_of_pack {id : UInt8} {held pending : Nat} {cs : List Char} {octets : Octets}
    (h : a.pack id held pending cs = .ok octets) : ∀ c ∈ cs, (a.code? c).isSome := by
  induction cs generalizing held pending octets with
  | nil => simp
  | cons c cs ih =>
      unfold pack at h
      split at h
      · cases h
      · next code hcode =>
          simp only at h
          intro d hd
          rcases List.mem_cons.1 hd with rfl | hd
          · rw [hcode]
            rfl
          · cases hp : a.pack id ((held * 2 ^ a.width + code) % 2 ^ ((pending + a.width) % 8))
                ((pending + a.width) % 8) cs with
            | error cause => rw [hp] at h; cases h
            | ok back => exact ih hp d hd

theorem decode_of_encode {id : UInt8} {text : String} {octets : Octets}
    (h : a.encode id text = .ok octets) : a.decode id octets = .ok text := by
  obtain ⟨fill, -, hlength, hnumber⟩ := a.ofBigEndian_pack (by decide) (by decide) h
  rw [decode, unpack_eq_unpackNumber, Nat.zero_mul, Nat.zero_add, Nat.zero_add, hnumber, hlength,
    Nat.zero_add, unpackNumber_row a id (a.isSome_code?_of_pack h)]
  simp [Except.map]

end Alphabet

end BinaryXml
