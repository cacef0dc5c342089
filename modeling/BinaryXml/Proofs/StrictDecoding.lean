import BinaryXml.Proofs.StrictText
import Mathlib.Data.List.Chain

/-!
# Strict decoding

Octets are decoded in UTF-8 or UTF-16 just if they are what some text is encoded as, and then to
that text. So every text has one spelling in each encoding. What spellings there might be besides
are refused wherever they stand among other octets: in UTF-8 a number in more octets than it takes,
or that of a surrogate, and in UTF-16 a surrogate that has no partner where its partner should be.
-/

namespace BinaryXml

/-! ## UTF-8 -/

namespace Utf8

theorem encodeChar_eq_utf8EncodeChar (c : Char) : encodeChar c = String.utf8EncodeChar c := by
  have valid := Char.toNat_cases c
  have same : c.val.toNat = c.toNat := rfl
  simp only [encodeChar, String.utf8EncodeChar, same]
  generalize c.toNat = n at valid
  split
  · rw [if_pos (by omega)]
  split
  · have lead : n / 64 % 32 = n / 64 := Nat.mod_eq_of_lt (by omega)
    rw [if_neg (by omega), if_pos (by omega)]
    simp only [lead, Nat.add_comm]
  split
  · have lead : n / 4096 % 16 = n / 4096 := Nat.mod_eq_of_lt (by omega)
    rw [if_neg (by omega), if_neg (by omega), if_pos (by omega)]
    simp only [lead, Nat.add_comm]
  · have lead : n / 262144 % 8 = n / 262144 := Nat.mod_eq_of_lt (by omega)
    rw [if_neg (by omega), if_neg (by omega), if_neg (by omega)]
    simp only [lead, Nat.add_comm]

/-- Text is encoded as the strings of the core library are. -/
theorem encode_eq_toUTF8 (text : String) : encode text = text.toUTF8.data.toList := by
  have chars : encodeChar = String.utf8EncodeChar := funext encodeChar_eq_utf8EncodeChar
  rw [String.toUTF8, ← String.utf8Encode_toList, encode, chars, List.utf8Encode,
    List.data_toByteArray]

/-- What may stand next to each other: an octet that leads others is followed by one of those that
may follow it. -/
def Joins (first second : UInt8) : Prop :=
  0xC0 ≤ first.toNat → 0xC2 ≤ first.toNat ∧ mayFollow first.toNat second = true

theorem isChain_low {octet : UInt8} {rest : Octets} (low : octet.toNat < 0xC0)
    (chain : rest.IsChain Joins) : (octet :: rest).IsChain Joins :=
  chain.cons fun _ _ lead => absurd lead (Nat.not_le_of_lt low)

theorem isChain_lead {first second : UInt8} {rest : Octets} (least : 0xC2 ≤ first.toNat)
    (follows : mayFollow first.toNat second = true) (chain : rest.IsChain Joins) :
    (first :: second :: rest).IsChain Joins :=
  (isChain_low (toNat_of_mayFollow follows).1.2 chain).cons_cons fun _ => ⟨least, follows⟩

theorem isChain_continuation {octet : UInt8} {rest : Octets}
    (continues : isContinuation octet = true) (chain : rest.IsChain Joins) :
    (octet :: rest).IsChain Joins :=
  isChain_low (toNat_of_isContinuation continues).2 chain

/-- Octets that are decoded join wherever one stands next to another. -/
theorem isChain_of_decodeFrom {index : Nat} {octets : Octets} :
    ∀ cs, decodeFrom index octets = .ok cs → octets.IsChain Joins := by
  fun_induction decodeFrom index octets with
  | case1 => exact fun _ _ => .nil
  | case2 index first rest lead ascii ih =>
      intro cs h
      obtain ⟨others, decoded, -⟩ := eq_ok_of_map h
      exact isChain_low (by omega) (ih others decoded)
  | case6 index first lead _ leads second rest follows two n ih =>
      intro cs h
      obtain ⟨others, decoded, -⟩ := eq_ok_of_map h
      simp only [Bool.or_eq_true, decide_eq_true_eq, Bool.not_eq_true', Bool.not_eq_false] at *
      exact isChain_lead (by omega) follows (ih others decoded)
  | case9 index first lead _ leads second follows _ third rest goesOn three n ih =>
      intro cs h
      obtain ⟨others, decoded, -⟩ := eq_ok_of_map h
      simp only [Bool.or_eq_true, decide_eq_true_eq, Bool.not_eq_true', Bool.not_eq_false] at *
      exact isChain_lead (by omega) follows (isChain_continuation goesOn (ih others decoded))
  | case12 index first lead _ leads second follows _ third goesOn _ fourth rest ends n ih =>
      intro cs h
      obtain ⟨others, decoded, -⟩ := eq_ok_of_map h
      simp only [Bool.or_eq_true, decide_eq_true_eq, Bool.not_eq_true', Bool.not_eq_false] at *
      exact isChain_lead (by omega) follows
        (isChain_continuation goesOn (isChain_continuation ends (ih others decoded)))
  | _ =>
      intro cs h
      cases h

/-- Octets in the manner of a character that are none: the number `n` takes fewer octets, or is
the number of a surrogate. -/
inductive IsForbidden : Octets → Prop
  | two {n : Nat} (fewer : n < 0x80) :
    IsForbidden [UInt8.ofNat (0xC0 + n / 64), UInt8.ofNat (0x80 + n % 64)]
  | three {n : Nat} (fewer : n < 0x800) :
    IsForbidden [UInt8.ofNat (0xE0 + n / 4096), UInt8.ofNat (0x80 + n / 64 % 64),
      UInt8.ofNat (0x80 + n % 64)]
  | four {n : Nat} (fewer : n < 0x10000) :
    IsForbidden [UInt8.ofNat (0xF0 + n / 262144), UInt8.ofNat (0x80 + n / 4096 % 64),
      UInt8.ofNat (0x80 + n / 64 % 64), UInt8.ofNat (0x80 + n % 64)]
  | surrogate {n : Nat} (low : 0xD800 ≤ n) (high : n < 0xE000) :
    IsForbidden [UInt8.ofNat (0xE0 + n / 4096), UInt8.ofNat (0x80 + n / 64 % 64),
      UInt8.ofNat (0x80 + n % 64)]

theorem Joins.bounds {lead next : Nat} (h : Joins (UInt8.ofNat lead) (UInt8.ofNat next))
    (leads : 0xC0 ≤ lead) (leadLt : lead < 256) (nextLt : next < 256) :
    0xC2 ≤ lead ∧ (lead = 0xE0 → 0xA0 ≤ next) ∧ (lead = 0xED → next < 0xA0) ∧
      (lead = 0xF0 → 0x90 ≤ next) := by
  rw [Joins, toNat_ofNat leadLt] at h
  obtain ⟨least, follows⟩ := h leads
  obtain ⟨-, hE0, hED, hF0, -⟩ := toNat_of_mayFollow follows
  rw [toNat_ofNat nextLt] at hE0 hED hF0
  exact ⟨least, hE0, hED, hF0⟩

theorem not_isChain_of_isForbidden {octets : Octets} (forbidden : IsForbidden octets) :
    ¬octets.IsChain Joins := by
  intro chain
  cases forbidden with
  | two | three | four | surrogate =>
      have := chain.rel.bounds (by omega) (by omega) (by omega)
      omega

/-- What is forbidden is so between any other octets. -/
theorem exists_decode_error_of_isForbidden {bad octets : Octets} (forbidden : IsForbidden bad)
    (within : bad <:+: octets) : ∃ failure, decode octets = .error failure := by
  unfold decode
  cases decoded : decodeFrom 0 octets with
  | error failure => exact ⟨failure, rfl⟩
  | ok cs =>
      have chain := isChain_of_decodeFrom cs decoded
      have inner : bad.IsChain Joins := chain.infix within
      exact absurd inner (not_isChain_of_isForbidden forbidden)

end Utf8

/-! ## UTF-16 -/

namespace Utf16

/-- A surrogate without its partner: nothing low comes right after a high one, or nothing high
right before a low one. -/
inductive IsUnpaired : List Nat → Prop
  | high {before after : List Nat} {unit : Nat} (isHigh : isHighSurrogate unit = true)
      (alone : ∀ next ∈ after.head?, isLowSurrogate next = false) :
    IsUnpaired (before ++ unit :: after)
  | low {before after : List Nat} {unit : Nat} (isLow : isLowSurrogate unit = true)
      (alone : ∀ previous ∈ before.getLast?, isHighSurrogate previous = false) :
    IsUnpaired (before ++ unit :: after)

theorem isLowSurrogate_eq_false {unit : Nat} (h : isHighSurrogate unit = true) :
    isLowSurrogate unit = false := by
  simp only [isHighSurrogate, isLowSurrogate, Bool.and_eq_true, decide_eq_true_eq,
    Bool.and_eq_false_iff, decide_eq_false_iff_not] at *
  omega

theorem mem_getLast?_cons {first last : Nat} {units : List Nat} (h : last ∈ units.getLast?) :
    last ∈ (first :: units).getLast? := by
  rw [List.getLast?_cons, Option.mem_def.1 h]
  rfl

/-- Among units that are decoded every surrogate has its partner. -/
theorem partner_of_ofUnits {all : List Nat} :
    ∀ cs before unit after, ofUnits all = .ok cs → all = before ++ unit :: after →
      (isHighSurrogate unit = true → ∃ next ∈ after.head?, isLowSurrogate next = true) ∧
        (isLowSurrogate unit = true →
          ∃ previous ∈ before.getLast?, isHighSurrogate previous = true) := by
  fun_induction ofUnits all with
  | case1 =>
      intro cs before unit after _ split
      simp at split
  | case3 first notLow isHigh second rest isLow n ih =>
      intro cs before unit after h split
      obtain ⟨others, decoded, -⟩ := eq_ok_of_map h
      rcases before with _ | ⟨_, _ | ⟨_, before⟩⟩
      · cases split
        exact ⟨fun _ => ⟨second, rfl, isLow⟩, fun low => absurd low notLow⟩
      · cases split
        exact ⟨fun high => absurd (isLowSurrogate_eq_false high) (by simp [isLow]),
          fun _ => ⟨first, rfl, isHigh⟩⟩
      · cases split
        obtain ⟨high, low⟩ := ih others before unit after decoded rfl
        refine ⟨high, fun isLow => ?_⟩
        obtain ⟨previous, mem, same⟩ := low isLow
        exact ⟨previous, mem_getLast?_cons (mem_getLast?_cons mem), same⟩
  | case6 first rest notLow notHigh ih =>
      intro cs before unit after h split
      obtain ⟨others, decoded, -⟩ := eq_ok_of_map h
      rcases before with _ | ⟨_, before⟩
      · cases split
        exact ⟨fun high => absurd high notHigh, fun low => absurd low notLow⟩
      · cases split
        obtain ⟨high, low⟩ := ih others before unit after decoded rfl
        refine ⟨high, fun isLow => ?_⟩
        obtain ⟨previous, mem, same⟩ := low isLow
        exact ⟨previous, mem_getLast?_cons mem, same⟩
  | _ => nofun

theorem not_isUnpaired_of_ofUnits {all : List Nat} {cs : List Char} (h : ofUnits all = .ok cs) :
    ¬IsUnpaired all := by
  intro unpaired
  cases unpaired with
  | high isHigh alone =>
      obtain ⟨next, mem, isLow⟩ := (partner_of_ofUnits cs _ _ _ h rfl).1 isHigh
      simp [alone next mem] at isLow
  | low isLow alone =>
      obtain ⟨previous, mem, isHigh⟩ := (partner_of_ofUnits cs _ _ _ h rfl).2 isLow
      simp [alone previous mem] at isHigh

/-- Octets that are cut within a unit, or that have a surrogate without its partner, are refused. -/
theorem exists_decode_error {octets : Octets}
    (malformed : octets.length % 2 = 1 ∨ IsUnpaired (readUnits octets)) :
    ∃ failure, decode octets = .error failure := by
  unfold decode
  split
  · exact ⟨_, rfl⟩
  · next even =>
      cases decoded : ofUnits (readUnits octets) with
      | error failure => exact ⟨failure, rfl⟩
      | ok cs =>
          rcases malformed with odd | unpaired
          · exact absurd odd even
          · exact absurd unpaired (not_isUnpaired_of_ofUnits decoded)

theorem readUnits_lt (octets : Octets) : ∀ unit ∈ readUnits octets, unit < 65536 := by
  fun_induction readUnits octets with
  | case1 high low rest ih =>
      have := high.toNat_lt
      have := low.toNat_lt
      exact List.forall_mem_cons.2 ⟨by omega, ih⟩
  | case2 => nofun

theorem flatMap_readUnits {octets : Octets} (even : octets.length % 2 = 0) :
    (readUnits octets).flatMap (bigEndian 2) = octets := by
  fun_induction readUnits octets with
  | case1 high low rest ih =>
      have unit : bigEndian 2 (high.toNat * 256 + low.toNat) = [high, low] :=
        bigEndian_eq rfl (by simp [ofBigEndian])
      simp only [List.length_cons] at even
      rw [List.flatMap_cons, unit, ih (by omega)]
      rfl
  | case2 octets short =>
      rcases octets with _ | ⟨high, _ | ⟨low, rest⟩⟩
      · rfl
      · simp at even
      · exact absurd rfl (short high low rest)

theorem units_ofNat {unit : Nat} (small : unit < 65536) (notLow : ¬isLowSurrogate unit = true)
    (notHigh : ¬isHighSurrogate unit = true) : units (Char.ofNat unit) = [unit] := by
  simp only [isLowSurrogate, isHighSurrogate, Bool.and_eq_true, decide_eq_true_eq] at *
  have valid : unit.isValidChar := by
    unfold Nat.isValidChar
    omega
  rw [units, Char.toNat_ofNat_of_isValidChar valid]
  exact if_pos small

theorem units_ofNat_pair {high low : Nat} (isHigh : isHighSurrogate high = true)
    (isLow : isLowSurrogate low = true) :
    units (Char.ofNat (0x10000 + (high - 0xD800) * 0x400 + (low - 0xDC00))) = [high, low] := by
  simp only [isLowSurrogate, isHighSurrogate, Bool.and_eq_true, decide_eq_true_eq] at *
  generalize hn : 0x10000 + (high - 0xD800) * 0x400 + (low - 0xDC00) = n
  have valid : n.isValidChar := by
    unfold Nat.isValidChar
    omega
  simp only [units, Char.toNat_ofNat_of_isValidChar valid]
  rw [if_neg (by omega)]
  simp only [List.cons.injEq, and_true]
  omega

theorem flatMap_units_of_ofUnits {all : List Nat} :
    ∀ cs, (∀ unit ∈ all, unit < 65536) → ofUnits all = .ok cs → cs.flatMap units = all := by
  fun_induction ofUnits all with
  | case1 =>
      intro cs _ h
      cases h
      rfl
  | case3 first notLow isHigh second rest isLow n ih =>
      intro cs small h
      obtain ⟨others, decoded, rfl⟩ := eq_ok_of_map h
      have later := ih others (fun unit mem => small unit (by simp [mem])) decoded
      rw [List.flatMap_cons, units_ofNat_pair isHigh isLow, later]
      rfl
  | case6 first rest notLow notHigh ih =>
      intro cs small h
      obtain ⟨others, decoded, rfl⟩ := eq_ok_of_map h
      have later := ih others (fun unit mem => small unit (by simp [mem])) decoded
      rw [List.flatMap_cons, units_ofNat (small first (by simp)) notLow notHigh, later]
      rfl
  | _ => nofun

/-- Only what a text is encoded as is decoded to it. -/
theorem encode_of_decode {octets : Octets} {text : String} (h : decode octets = .ok text) :
    encode text = octets := by
  unfold decode at h
  split at h
  · cases h
  · next even =>
      obtain ⟨cs, decoded, rfl⟩ := eq_ok_of_map h
      rw [encode, String.toList_ofList,
        flatMap_units_of_ofUnits cs (readUnits_lt octets) decoded, flatMap_readUnits (by omega)]

end Utf16

/-! ## Both encodings -/

theorem eq_ok_of_mapError {ε ε' α : Type} {r : Except ε α} {f : ε → ε'} {x : α}
    (h : r.mapError f = .ok x) : r = .ok x := by
  cases r with
  | error cause => cases h
  | ok y =>
      cases h
      rfl

namespace CharacterEncoding

/-- Octets with something that no text is encoded as. -/
def IsMalformed : CharacterEncoding → Octets → Prop
  | utf8, octets => ∃ bad, Utf8.IsForbidden bad ∧ bad <:+: octets
  | utf16, octets => octets.length % 2 = 1 ∨ Utf16.IsUnpaired (Utf16.readUnits octets)

theorem encode_of_decode {encoding : CharacterEncoding} {octets : Octets} {text : String}
    (h : encoding.decode octets = .ok text) : encoding.encode text = octets := by
  cases encoding with
  | utf8 => exact Utf8.encode_of_decode (eq_ok_of_mapError h)
  | utf16 => exact Utf16.encode_of_decode (eq_ok_of_mapError h)

theorem exists_decode_error {encoding : CharacterEncoding} {octets : Octets}
    (malformed : encoding.IsMalformed octets) :
    ∃ cause, encoding.decode octets = .error cause := by
  cases encoding with
  | utf8 =>
      obtain ⟨bad, forbidden, within⟩ := malformed
      obtain ⟨failure, refused⟩ := Utf8.exists_decode_error_of_isForbidden forbidden within
      exact ⟨_, by rw [decode, refused]; rfl⟩
  | utf16 =>
      obtain ⟨failure, refused⟩ := Utf16.exists_decode_error malformed
      exact ⟨_, by rw [decode, refused]; rfl⟩

/-- Octets are decoded just if some text is encoded as them, and to that text; nothing malformed
is decoded, and what is written in UTF-8 is UTF-8. -/
theorem decode_eq_ok_iff (encoding : CharacterEncoding) (octets : Octets) :
    (∀ text, encoding.decode octets = .ok text ↔ octets = encoding.encode text) ∧
      (encoding.IsMalformed octets → ∃ cause, encoding.decode octets = .error cause) ∧
      ∀ text, utf8.encode text = text.toUTF8.data.toList := by
  refine ⟨fun text => ⟨fun decoded => (encode_of_decode decoded).symm, ?_⟩, exists_decode_error,
    Utf8.encode_eq_toUTF8⟩
  rintro rfl
  exact encoding.decode_encode text

/-- In UTF-8 the octets of `A€` are decoded, and neither an overlong zero nor a surrogate behind an
`A` is. In UTF-16 an `A` is refused with swapped surrogates behind it, and if it is cut. -/
theorem decode_eq_ok_iff_euro :
    utf8.decode [0x41, 0xE2, 0x82, 0xAC] = .ok "A€" ∧
      (∃ cause, utf8.decode [0x41, 0xC0, 0x80] = .error cause) ∧
      (∃ cause, utf8.decode [0x41, 0xED, 0xA0, 0x80] = .error cause) ∧
      (∃ cause, utf16.decode [0x00, 0x41, 0xDC, 0x00, 0xD8, 0x3D] = .error cause) ∧
      ∃ cause, utf16.decode [0x00, 0x41, 0xDC] = .error cause := by
  have overlong : utf8.IsMalformed [0x41, 0xC0, 0x80] :=
    ⟨[0xC0, 0x80], Utf8.IsForbidden.two (n := 0) (by decide), [0x41], [], rfl⟩
  have surrogate : utf8.IsMalformed [0x41, 0xED, 0xA0, 0x80] :=
    ⟨[0xED, 0xA0, 0x80], Utf8.IsForbidden.surrogate (n := 0xD800) (by decide) (by decide),
      [0x41], [], rfl⟩
  have alone : Utf16.IsUnpaired ([0x41] ++ 0xDC00 :: [0xD83D]) := .low rfl (by decide)
  have swapped : utf16.IsMalformed [0x00, 0x41, 0xDC, 0x00, 0xD8, 0x3D] := .inr alone
  have cut : utf16.IsMalformed [0x00, 0x41, 0xDC] := .inl rfl
  exact ⟨((decode_eq_ok_iff utf8 _).1 "A€").2 rfl, (decode_eq_ok_iff utf8 _).2.1 overlong,
    (decode_eq_ok_iff utf8 _).2.1 surrogate, (decode_eq_ok_iff utf16 _).2.1 swapped,
    (decode_eq_ok_iff utf16 _).2.1 cut⟩

end CharacterEncoding

end BinaryXml
