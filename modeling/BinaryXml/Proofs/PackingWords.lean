import BinaryXml.Proofs.AlphabetRoundTrip
import Mathlib.Data.Fintype.Card

/-!
# Packing in a word

The bits of packed text that wait for the rest of their octet, or of their code, fit into one word
of 32 bits, since no code has more than 21 bits. The loops of this module keep them there: they
shift the word and cut it to the bits that are still needed, and they answer only if no shift drops
a bit. They always answer, with what packing and unpacking make of numbers of any size.
-/

namespace BinaryXml

-- Powers are those of `Nat` alone, whatever algebra is in scope.
attribute [local instance (high)] instPowNat

/-! ## Words -/

namespace PackingWord

/-- Shifts a word to the left, unless a bit would be lost. -/
def shiftLeft? (word : UInt32) (count : Nat) : Option UInt32 :=
  if count < 32 ∧ word.toNat * 2 ^ count < UInt32.size then some (word <<< UInt32.ofNat count)
  else none

/-- The last bits of a word, as many as `count`. -/
def lowBits? (word : UInt32) (count : Nat) : Option UInt32 :=
  (shiftLeft? 1 count).map fun bit => word &&& (bit - 1)

/-- The whole octets among the last `pending` bits of a word, and how many bits are left. -/
def flush (word : UInt32) (pending : Nat) : Octets × Nat :=
  if 8 ≤ pending then
    let (octets, left) := flush word (pending - 8)
    ((word >>> UInt32.ofNat (pending - 8)).toUInt8 :: octets, left)
  else ([], pending)

theorem lt_size_of_lt {n count : Nat} (h : n < 2 ^ count) (few : count < 32) : n < UInt32.size :=
  Nat.lt_of_lt_of_le h (Nat.pow_le_pow_right (by decide) (Nat.le_of_lt few))

theorem toNat_ofNat {n : Nat} (h : n < UInt32.size) : (UInt32.ofNat n).toNat = n :=
  UInt32.toNat_ofNat_of_lt' h

theorem toNat_ofNat_count {count : Nat} (few : count < 32) :
    (UInt32.ofNat count).toNat % 32 = count := by
  rw [toNat_ofNat (Nat.lt_trans few (by decide)), Nat.mod_eq_of_lt few]

theorem toNat_shiftRight (word : UInt32) {count : Nat} (few : count < 32) :
    (word >>> UInt32.ofNat count).toNat = word.toNat / 2 ^ count := by
  rw [UInt32.toNat_shiftRight, toNat_ofNat_count few, Nat.shiftRight_eq_div_pow]

theorem shiftLeft?_ofNat {n count : Nat} (few : count < 32) (fits : n * 2 ^ count < UInt32.size) :
    shiftLeft? (UInt32.ofNat n) count = some (UInt32.ofNat (n * 2 ^ count)) := by
  have small : n < UInt32.size :=
    Nat.lt_of_le_of_lt (Nat.le_mul_of_pos_right n (Nat.two_pow_pos _)) fits
  rw [shiftLeft?, toNat_ofNat small, if_pos ⟨few, fits⟩, Option.some.injEq]
  apply UInt32.toNat.inj
  rw [UInt32.toNat_shiftLeft, toNat_ofNat small, toNat_ofNat fits, toNat_ofNat_count few,
    Nat.shiftLeft_eq, Nat.mod_eq_of_lt fits]

theorem lowBits?_eq (word : UInt32) {count : Nat} (few : count < 32) :
    lowBits? word count = some (UInt32.ofNat (word.toNat % 2 ^ count)) := by
  have power : 1 * 2 ^ count < UInt32.size := by
    rw [Nat.one_mul]
    exact Nat.pow_lt_pow_right (by decide) few
  have bit : shiftLeft? 1 count = some (UInt32.ofNat (1 * 2 ^ count)) := shiftLeft?_ofNat few power
  rw [Nat.one_mul] at bit power
  have low : word.toNat % 2 ^ count < UInt32.size :=
    lt_size_of_lt (Nat.mod_lt _ (Nat.two_pow_pos _)) few
  have one : (1 : UInt32) ≤ UInt32.ofNat (2 ^ count) := by
    rw [UInt32.le_iff_toNat_le, toNat_ofNat power]
    exact Nat.two_pow_pos _
  rw [lowBits?, bit, Option.map_some, Option.some.injEq]
  apply UInt32.toNat.inj
  rw [UInt32.toNat_and, UInt32.toNat_sub_of_le _ _ one, toNat_ofNat power, toNat_ofNat low]
  exact Nat.and_two_pow_sub_one_eq_mod _ _

/-- Bits are put behind those of a number that was shifted by enough. -/
theorem ofNat_or_ofNat {n m count : Nat} (small : m < 2 ^ count)
    (fits : n * 2 ^ count + m < UInt32.size) :
    UInt32.ofNat (n * 2 ^ count) ||| UInt32.ofNat m = UInt32.ofNat (n * 2 ^ count + m) := by
  apply UInt32.toNat.inj
  rw [UInt32.toNat_or, toNat_ofNat (Nat.lt_of_le_of_lt (Nat.le_add_right _ _) fits),
    toNat_ofNat (Nat.lt_of_le_of_lt (Nat.le_add_left _ _) fits), toNat_ofNat fits, Nat.mul_comm,
    Nat.two_pow_add_eq_or_of_lt small]

theorem flush_eq (word : UInt32) {pending : Nat} (few : pending < 32) :
    flush word pending =
      (bigEndian (pending / 8) (word.toNat / 2 ^ (pending % 8)), pending % 8) := by
  induction pending using Nat.strongRecOn with
  | ind pending ih =>
      rw [flush]
      split
      · next whole =>
          obtain ⟨rest, rfl⟩ : ∃ rest, pending = rest + 8 := ⟨pending - 8, by omega⟩
          have octet : (word >>> UInt32.ofNat rest).toUInt8 =
              UInt8.ofNat (word.toNat / 2 ^ (rest % 8) / 256 ^ (rest / 8)) := by
            apply UInt8.toNat.inj
            have split : 2 ^ rest = 2 ^ (rest % 8) * 256 ^ (rest / 8) := by
              rw [show 256 = 2 ^ 8 from rfl, ← Nat.pow_mul, ← Nat.pow_add, Nat.mod_add_div]
            rw [UInt32.toNat_toUInt8, toNat_shiftRight word (by omega), split,
              Nat.div_div_eq_div_mul]
            simp
          rw [Nat.add_sub_cancel, ih rest (by omega) (by omega), octet,
            Nat.add_div_right _ (by decide), Nat.add_mod_right]
          rfl
      · next part =>
          have none : pending / 8 = 0 := by omega
          have all : pending % 8 = pending := by omega
          rw [none, all]
          rfl

end PackingWord

/-! ## Loops -/

namespace Alphabet

open PackingWord

/-- Packs text behind the `pending` bits of a word. -/
def packWord (a : Alphabet) (id : UInt8) (word : UInt32) (pending : Nat) :
    List Char → Option (Except AlphabetError Octets)
  | [] =>
    if pending = 0 then some (.ok [])
    else (shiftLeft? word (8 - pending)).map fun shifted => .ok [shifted.toUInt8]
  | c :: cs =>
    match a.code? c with
    | none => some (.error (.characterNotInAlphabet id c))
    | some code => do
      let shifted ← shiftLeft? word a.width
      let bits := shifted ||| UInt32.ofNat code
      let (octets, left) := flush bits (pending + a.width)
      let kept ← lowBits? bits left
      (a.packWord id kept left cs).map (·.map (octets ++ ·))

def encodeWord (a : Alphabet) (id : UInt8) (text : String) : Option (Except AlphabetError Octets) :=
  a.packWord id 0 0 text.toList

/-- Unpacks the last `available` bits of a word and the octets after them. What is above these bits
is cut off before the next octet comes in. -/
def unpackWord (a : Alphabet) (id : UInt8) (word : UInt32) (available : Nat) (octets : Octets) :
    Option (Except AlphabetError (List Char)) :=
  if a.width ≤ available then do
    let left := available - a.width
    let code ← lowBits? (word >>> UInt32.ofNat left) a.width
    if code = 0 then some (.ok [])
    else
      match a.characters.get? (code.toNat - 1) with
      | none => some (.error (.invalidCode id code.toNat))
      | some c => (a.unpackWord id word left octets).map (·.map (c :: ·))
  else
    match octets with
    | [] => some (.ok [])
    | octet :: rest => do
      let kept ← lowBits? word available
      let shifted ← shiftLeft? kept 8
      a.unpackWord id (shifted ||| octet.toUInt32) (available + 8) rest
termination_by (octets.length, available)
decreasing_by
  · exact Prod.Lex.right _ (by simp only [width] at *; omega)
  · exact Prod.Lex.left _ _ (by simp)

def decodeWord (a : Alphabet) (id : UInt8) (octets : Octets) :
    Option (Except AlphabetError String) :=
  (a.unpackWord id 0 0 octets).map (·.map String.ofList)

variable (a : Alphabet)

/-- There are fewer than `2 ^ 21` characters. -/
theorem width_le : a.width ≤ 21 := by
  let place (c : Char) : Fin 0x110000 := ⟨c.toNat, by
    have valid : c.toNat < 0xD800 ∨ 0xDFFF < c.toNat ∧ c.toNat < 0x110000 := c.valid
    omega⟩
  have separates : Function.Injective place := fun c d same =>
    Char.ext (UInt32.toNat_inj.1 (Fin.mk.inj same))
  have few := (a.characters.nodup_toList.map separates).length_le_card
  rw [List.length_map, Fintype.card_fin, Roster.toList, Array.length_toList] at few
  have size : a.size < 2 ^ 21 := Nat.lt_of_le_of_lt few (by decide)
  have nonzero : a.size ≠ 0 := Nat.ne_of_gt (Nat.lt_of_lt_of_le (by decide) a.two_le_size)
  exact (Nat.log2_lt nonzero).2 size

theorem packWord_eq (id : UInt8) {held pending : Nat} (hheld : held < 2 ^ pending)
    (hpending : pending < 8) (cs : List Char) :
    a.packWord id (UInt32.ofNat held) pending cs = some (a.pack id held pending cs) := by
  induction cs generalizing held pending with
  | nil =>
      rw [packWord, pack]
      split
      · rfl
      · next filled =>
          have shifted : held * 2 ^ (8 - pending) < 2 ^ 8 := by
            have behind : held * 2 ^ (8 - pending) + 0 < 2 ^ (pending + (8 - pending)) :=
              behind_lt hheld (Nat.two_pow_pos _)
            rwa [Nat.add_sub_cancel' (Nat.le_of_lt hpending), Nat.add_zero] at behind
          rw [shiftLeft?_ofNat (by omega) (lt_size_of_lt shifted (by decide)), Option.map_some,
            UInt32.toUInt8_ofNat']
  | cons c cs ih =>
      rw [packWord, pack]
      cases hcode : a.code? c with
      | none => rfl
      | some code =>
          obtain ⟨-, small, -⟩ := a.code?_eq_some hcode
          have narrow := a.width_le
          have few : pending + a.width < 32 := by omega
          have bits := lt_size_of_lt (behind_lt hheld small) few
          have shifted : shiftLeft? (UInt32.ofNat held) a.width =
              some (UInt32.ofNat (held * 2 ^ a.width)) :=
            shiftLeft?_ofNat (by omega) (Nat.lt_of_le_of_lt (Nat.le_add_right _ _) bits)
          have left : (pending + a.width) % 8 < 8 := Nat.mod_lt _ (by decide)
          have kept := lowBits?_eq (UInt32.ofNat (held * 2 ^ a.width + code))
            (Nat.lt_trans left (by decide))
          rw [toNat_ofNat bits] at kept
          have low : (held * 2 ^ a.width + code) % 2 ^ ((pending + a.width) % 8) <
              2 ^ ((pending + a.width) % 8) := Nat.mod_lt _ (Nat.two_pow_pos _)
          have rest := ih low left
          simp only [shifted, Option.bind_eq_bind, Option.bind_some, ofNat_or_ofNat small bits,
            flush_eq _ few, toNat_ofNat bits, kept, rest, Option.map_some]

/-- The code on top of the bits at hand is cut out of the word. -/
theorem unpackWord_of_le (id : UInt8) (word : UInt32) {available : Nat} (octets : Octets)
    (enough : a.width ≤ available) (few : available < 32) :
    a.unpackWord id word available octets =
      let left := available - a.width
      let code := word.toNat % 2 ^ available / 2 ^ left
      if code = 0 then some (.ok [])
      else
        match a.characters.get? (code - 1) with
        | none => some (.error (.invalidCode id code))
        | some c => (a.unpackWord id word left octets).map (·.map (c :: ·)) := by
  have narrow := a.width_le
  have top : (word >>> UInt32.ofNat (available - a.width)).toNat % 2 ^ a.width =
      word.toNat % 2 ^ available / 2 ^ (available - a.width) := by
    rw [toNat_shiftRight _ (by omega), ← Nat.mod_mul_right_div_self, ← Nat.pow_add,
      Nat.sub_add_cancel enough]
  have cut := lowBits?_eq (word >>> UInt32.ofNat (available - a.width))
    (show a.width < 32 by omega)
  rw [top] at cut
  rw [unpackWord.eq_def, if_pos enough]
  dsimp only
  generalize hcode : word.toNat % 2 ^ available / 2 ^ (available - a.width) = code at cut
  have small : code < UInt32.size := by
    rw [← hcode]
    exact Nat.lt_of_le_of_lt (Nat.div_le_self _ _)
      (Nat.lt_of_le_of_lt (Nat.mod_le _ _) word.toNat_lt)
  have zero : UInt32.ofNat code = 0 ↔ code = 0 := by
    rw [← UInt32.toNat_inj, toNat_ofNat small]
    rfl
  simp only [cut, Option.bind_eq_bind, Option.bind_some, zero, toNat_ofNat small]

/-- The bits at hand are shifted up for the next octet. -/
theorem unpackWord_of_lt (id : UInt8) (word : UInt32) {available : Nat} (octet : UInt8)
    (rest : Octets) (short : available < a.width) :
    a.unpackWord id word available (octet :: rest) =
      a.unpackWord id (UInt32.ofNat (word.toNat % 2 ^ available * 256 + octet.toNat))
        (available + 8) rest := by
  have narrow := a.width_le
  have low : word.toNat % 2 ^ available < 2 ^ available := Nat.mod_lt _ (Nat.two_pow_pos _)
  have fits : word.toNat % 2 ^ available * 2 ^ 8 + octet.toNat < UInt32.size :=
    lt_size_of_lt (behind_lt low octet.toNat_lt) (by omega)
  have kept := lowBits?_eq word (show available < 32 by omega)
  have shifted := shiftLeft?_ofNat (by decide) (Nat.lt_of_le_of_lt (Nat.le_add_right _ _) fits)
  rw [unpackWord.eq_def, if_neg (Nat.not_le_of_lt short)]
  simp only [kept, shifted, Option.bind_eq_bind, Option.bind_some]
  rw [show octet.toUInt32 = UInt32.ofNat octet.toNat from by simp,
    ofNat_or_ofNat octet.toNat_lt fits]

theorem unpackWord_eq (id : UInt8) (held available : Nat) (octets : Octets) :
    ∀ word : UInt32, word.toNat % 2 ^ available = held → available < 32 →
      a.unpackWord id word available octets = some (a.unpack id held available octets) := by
  fun_induction Alphabet.unpack a id held available octets with
  | case1 held available octets enough left code zero =>
      intro word hheld few
      rw [a.unpackWord_of_le id word octets enough few, hheld]
      exact if_pos zero
  | case2 held available octets enough left code nonzero missing =>
      intro word hheld few
      rw [a.unpackWord_of_le id word octets enough few, hheld]
      dsimp only
      rw [if_neg nonzero, missing]
  | case3 held available octets enough left code nonzero c found ih =>
      intro word hheld few
      have lower : word.toNat % 2 ^ left = held % 2 ^ left := by
        rw [← hheld, Nat.mod_mod_of_dvd _ (Nat.pow_dvd_pow 2 (Nat.sub_le _ _))]
      rw [a.unpackWord_of_le id word octets enough few, hheld]
      dsimp only
      rw [if_neg nonzero, found]
      dsimp only
      rw [ih word lower (Nat.lt_of_le_of_lt (Nat.sub_le _ _) few)]
      rfl
  | case4 held available short =>
      intro word hheld few
      rw [unpackWord.eq_def, if_neg short]
  | case5 held available short octet rest ih =>
      intro word hheld few
      have narrow := a.width_le
      have low : held < 2 ^ available := hheld ▸ Nat.mod_lt _ (Nat.two_pow_pos _)
      have behind : held * 256 + octet.toNat < 2 ^ (available + 8) := behind_lt low octet.toNat_lt
      have fits : held * 256 + octet.toNat < UInt32.size := lt_size_of_lt behind (by omega)
      rw [a.unpackWord_of_lt id word octet rest (Nat.lt_of_not_le short), hheld]
      exact ih _ (by rw [toNat_ofNat fits, Nat.mod_eq_of_lt behind]) (by omega)

/-- No shift drops a bit when text is packed. -/
theorem encodeWord_eq (id : UInt8) (text : String) :
    a.encodeWord id text = some (a.encode id text) :=
  a.packWord_eq id (by decide) (by decide) text.toList

/-- Nor when octets are unpacked, whatever they are. -/
theorem decodeWord_eq (id : UInt8) (octets : Octets) :
    a.decodeWord id octets = some (a.decode id octets) := by
  rw [decodeWord, a.unpackWord_eq id 0 0 octets 0 rfl (by decide)]
  rfl

end Alphabet

end BinaryXml
