import BinaryXml.Proofs.PackingWords

/-!
# Packing over every alphabet

Any two or more distinct characters are an alphabet. Text over it can be packed, into as many octets
as its codes need, and the octets are unpacked to the text again; other text is refused for the
first character that is not in the alphabet.
-/

namespace BinaryXml

namespace Alphabet

-- Powers are those of `Nat` alone, whatever algebra is in scope.
attribute [local instance (high)] instPowNat

variable {a : Alphabet} {characters : String} {id : UInt8}

theorem toList_of_ofString (accepted : ofString characters = .ok a) :
    a.characters.toList = characters.toList := by
  unfold ofString at accepted
  split at accepted
  · cases accepted
  · split at accepted
    · cases accepted
    · next built =>
        cases accepted
        exact Roster.toList_of_ofList built

theorem exists_ofString (long : 2 ≤ characters.toList.length)
    (distinct : characters.toList.Nodup) : ∃ a, ofString characters = .ok a := by
  obtain ⟨roster, built⟩ := Roster.ofList_of_nodup distinct
  unfold ofString
  rw [dif_neg (Nat.not_lt_of_le long)]
  split
  · next failed =>
      rw [built] at failed
      cases failed
  · exact ⟨_, rfl⟩

theorem size_eq_length (a : Alphabet) : a.size = a.characters.toList.length := by
  rw [size, Roster.size, Roster.toList, Array.length_toList]

theorem size_of_ofString (accepted : ofString characters = .ok a) :
    a.size = characters.toList.length := by
  rw [size_eq_length, toList_of_ofString accepted]

theorem code?_eq_none {c : Char} : a.code? c = none ↔ c ∉ a.characters.toList := by
  rw [code?, Option.map_eq_none_iff, Roster.indexOf?_eq_none]

theorem width_le_of_lt {v : Nat} (h : a.size < 2 ^ v) : a.width ≤ v :=
  (Nat.log2_lt (Nat.ne_of_gt (Nat.lt_of_lt_of_le (by decide) a.two_le_size))).2 h

theorem width_eq {v : Nat} (large : 2 ^ v ≤ a.size) (small : a.size < 2 ^ (v + 1)) :
    a.width = v + 1 := by
  have few : ¬ a.width ≤ v := fun few => Nat.not_le_of_lt a.size_lt_two_pow_width
    (Nat.le_trans (Nat.pow_le_pow_right (by decide) few) large)
  have := width_le_of_lt small
  omega

/-- The first character without a code is why text is refused. -/
theorem pack_eq_error_iff {held pending : Nat} {cs : List Char} {cause : AlphabetError} :
    a.pack id held pending cs = .error cause ↔
      ∃ c, cs.find? (fun c => c ∉ a.characters.toList) = some c ∧
        cause = .characterNotInAlphabet id c := by
  induction cs generalizing held pending with
  | nil =>
      rw [pack]
      split <;> simp
  | cons c cs ih =>
      rw [pack]
      by_cases known : c ∈ a.characters.toList
      · cases hcode : a.code? c with
        | none => exact absurd known (code?_eq_none.1 hcode)
        | some code =>
            have mapped (packed : Except AlphabetError Octets) (f : Octets → Octets) :
                packed.map f = .error cause ↔ packed = .error cause := by
              cases packed <;> simp [Except.map]
            rw [List.find?_cons_of_neg (by simpa using known)]
            exact (mapped _ _).trans ih
      · rw [code?_eq_none.2 known, List.find?_cons_of_pos (by simpa using known)]
        simp [eq_comm]

theorem exists_pack {held pending : Nat} {cs : List Char}
    (known : ∀ c ∈ cs, c ∈ a.characters.toList) :
    ∃ octets, a.pack id held pending cs = .ok octets := by
  cases packed : a.pack id held pending cs with
  | ok octets => exact ⟨octets, rfl⟩
  | error cause =>
      obtain ⟨c, found, -⟩ := pack_eq_error_iff.1 packed
      have foreign := List.find?_some found
      exact absurd (known c (List.mem_of_find?_eq_some found)) (by simpa using foreign)

theorem length_of_encode {text : String} {octets : Octets} (h : a.encode id text = .ok octets) :
    octets.length = (text.toList.length * a.width + 7) / 8 := by
  obtain ⟨fill, few, length, -⟩ := a.ofBigEndian_pack (by decide) (by decide) h
  rw [Nat.mul_comm a.width] at length
  omega

/-- Distinct characters are accepted, and text over them is packed into the least number of octets
and unpacked again, within a word. -/
theorem decode_encode_of_distinct (characters : String) (long : 2 ≤ characters.toList.length)
    (distinct : characters.toList.Nodup) (id : UInt8) (text : String) :
    ∃ a, ofString characters = .ok a ∧
      (characters.toList.length < 2 ^ a.width ∧
        ∀ v, characters.toList.length < 2 ^ v → a.width ≤ v) ∧
      (∀ cause, a.encode id text = .error cause ↔
        ∃ c, text.toList.find? (fun c => c ∉ characters.toList) = some c ∧
          cause = .characterNotInAlphabet id c) ∧
      ((∀ c ∈ text.toList, c ∈ characters.toList) →
        ∃ octets, a.encode id text = .ok octets ∧
          octets.length = (text.toList.length * a.width + 7) / 8 ∧
          a.decode id octets = .ok text) ∧
      a.encodeWord id text = some (a.encode id text) ∧
      ∀ octets, a.decodeWord id octets = some (a.decode id octets) := by
  obtain ⟨a, accepted⟩ := exists_ofString long distinct
  have same := toList_of_ofString accepted
  rw [← size_of_ofString accepted, ← same]
  refine ⟨a, accepted, ⟨a.size_lt_two_pow_width, fun v => width_le_of_lt⟩, ?_, ?_,
    a.encodeWord_eq id text, a.decodeWord_eq id⟩
  · exact fun cause => pack_eq_error_iff
  · intro known
    have packs : ∃ octets, a.encode id text = .ok octets := exists_pack known
    obtain ⟨octets, packed⟩ := packs
    exact ⟨octets, packed, length_of_encode packed, a.decode_of_encode packed⟩

/-- Seven characters of three bits take three octets, and a character besides the four is
refused. -/
theorem decode_encode_of_distinct_acgt :
    ∃ a, ofString "acgt" = .ok a ∧ a.width = 3 ∧
      (∃ octets, a.encode 5 "gattaca" = .ok octets ∧ octets.length = 3 ∧
        a.decode 5 octets = .ok "gattaca") ∧
      a.encodeWord 5 "gattaxay" = some (.error (.characterNotInAlphabet 5 'x')) := by
  have long : 2 ≤ "acgt".toList.length := by decide
  have distinct : "acgt".toList.Nodup := by decide
  obtain ⟨a, accepted, -, -, packs, -⟩ :=
    decode_encode_of_distinct "acgt" long distinct 5 "gattaca"
  obtain ⟨b, accepted', -, refuses, -, word, -⟩ :=
    decode_encode_of_distinct "acgt" long distinct 5 "gattaxay"
  cases accepted.symm.trans accepted'
  have size : a.size = 4 := size_of_ofString accepted
  have width : a.width = 3 := width_eq (v := 2) (Nat.le_of_eq size.symm) (by omega)
  obtain ⟨octets, packed, length, unpacked⟩ := packs (by simp)
  rw [width] at length
  refine ⟨a, accepted, width, ⟨octets, packed, length, unpacked⟩, ?_⟩
  rw [word, (refuses _).2 ⟨'x', by decide, rfl⟩]

end Alphabet

end BinaryXml
