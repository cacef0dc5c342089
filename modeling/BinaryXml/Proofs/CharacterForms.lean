import BinaryXml.Proofs.AlgorithmOctets
import BinaryXml.Proofs.DecimalDigits

/-!
# Reading back character forms

No character form of a single value has white space in it, and none is empty, so joined by spaces
they are the words of the text. Each word is read back as the value that it was written for, and so
is the text of octets, which has no white space that could be trimmed.
-/

namespace BinaryXml

-- Powers are those of `Nat` alone, whatever algebra is in scope.
attribute [local instance (high)] instPowNat

/-! ## Words -/

namespace WhiteSpace

/-- The text has no white space. -/
def IsSolid (cs : List Char) : Prop := ∀ c ∈ cs, isWhiteSpace c = false

instance (cs : List Char) : Decidable (IsSolid cs) := List.decidableBAll _ cs

theorem isSolid_append {front back : List Char} :
    IsSolid (front ++ back) ↔ IsSolid front ∧ IsSolid back :=
  List.forall_mem_append

theorem isSolid_cons {c : Char} {cs : List Char} :
    IsSolid (c :: cs) ↔ isWhiteSpace c = false ∧ IsSolid cs :=
  List.forall_mem_cons

theorem isSolid_flatMap {α : Type} {xs : List α} {f : α → List Char} (h : ∀ x, IsSolid (f x)) :
    IsSolid (xs.flatMap f) := by
  intro c mem
  obtain ⟨x, -, inside⟩ := List.mem_flatMap.1 mem
  exact h x c inside

theorem trimList_of_isSolid {cs : List Char} (solid : IsSolid cs) : trimList cs = cs := by
  have kept {cs : List Char} (solid : IsSolid cs) : cs.dropWhile isWhiteSpace = cs := by
    cases cs with
    | nil => rfl
    | cons c cs =>
        rw [List.dropWhile_cons_of_neg]
        rw [solid c List.mem_cons_self]
        exact Bool.false_ne_true
  have back : IsSolid cs.reverse := fun c mem => solid c (List.mem_reverse.1 mem)
  rw [trimList, kept solid, kept back, List.reverse_reverse]

theorem wordsAfter_append {cs : List Char} (solid : IsSolid cs) (word rest : List Char) :
    wordsAfter word (cs ++ rest) = wordsAfter (cs.reverse ++ word) rest := by
  induction cs generalizing word with
  | nil => rfl
  | cons c cs ih =>
      obtain ⟨plain, others⟩ := isSolid_cons.1 solid
      rw [List.cons_append, wordsAfter, plain, if_neg Bool.false_ne_true, ih others,
        List.reverse_cons, List.append_assoc, List.singleton_append]

/-- Words that are joined by spaces are the words of the text. -/
theorem wordsAfter_intercalate {words : List (List Char)}
    (h : ∀ w ∈ words, w ≠ [] ∧ IsSolid w) :
    wordsAfter [] ([' '].intercalate words) = words := by
  induction words with
  | nil => rfl
  | cons w words ih =>
      obtain ⟨filled, solid⟩ := h w List.mem_cons_self
      have word : (w.reverse ++ []).isEmpty = false := by
        rw [List.append_nil, List.isEmpty_eq_false_iff]
        exact mt List.reverse_eq_nil_iff.1 filled
      have back : (w.reverse ++ []).reverse = w := by
        rw [List.append_nil, List.reverse_reverse]
      cases words with
      | nil =>
          rw [List.intercalate_singleton, ← List.append_nil w, wordsAfter_append solid, wordsAfter,
            word, if_neg Bool.false_ne_true, back, List.append_nil]
      | cons next words =>
          have rest := ih fun v mem => h v (List.mem_cons_of_mem w mem)
          rw [List.intercalate_cons_cons, List.append_assoc, wordsAfter_append solid,
            List.singleton_append, wordsAfter, if_pos (by decide), word,
            if_neg Bool.false_ne_true, back, rest]

end WhiteSpace

namespace BuiltinAlgorithm

open WhiteSpace

variable {α β : Type} {xs : List α} {form : α → String}

theorem toList_joined (form : α → String) (xs : List α) :
    (joined form xs).toList = [' '].intercalate (xs.map fun x => (form x).toList) := by
  rw [joined, String.toList_intercalate, List.map_map]
  rfl

/-- A list is read back from the forms of its values if each value is read back from its own. -/
theorem readWords_joined {b : BuiltinAlgorithm} {read : List Char → Except (Option String) β}
    {value : α → β} (word : ∀ x ∈ xs, (form x).toList ≠ [] ∧ IsSolid (form x).toList)
    (back : ∀ x ∈ xs, read (form x).toList = .ok (value x)) :
    b.readWords read (joined form xs) = .ok (xs.map value) := by
  have split : words (joined form xs) = xs.map fun x => (form x).toList := by
    rw [words, toList_joined, wordsAfter_intercalate]
    intro w mem
    obtain ⟨x, inside, rfl⟩ := List.mem_map.1 mem
    exact word x inside
  rw [readWords, split]
  clear split word
  induction xs with
  | nil => rfl
  | cons x xs ih =>
      rw [List.map_cons, List.mapM_cons, back x List.mem_cons_self,
        ih fun y mem => back y (List.mem_cons_of_mem x mem)]
      rfl

end BuiltinAlgorithm

/-! ## Octets in hexadecimal -/

namespace Hexadecimal

/-- The digits are ASCII characters other than white space that are read as their values. -/
def ReadsBack (digit : Nat → Char) : Prop :=
  ∀ n < 16, (digit n).toNat < 0x80 ∧ WhiteSpace.isWhiteSpace (digit n) = false ∧
    digitValue? (UInt8.ofNat (digit n).toNat) = some n

instance (digit : Nat → Char) : Decidable (ReadsBack digit) :=
  inferInstanceAs (Decidable (∀ n < 16, _))

theorem readsBack_upperDigit : ReadsBack upperDigit := by decide

theorem readsBack_lowerDigit : ReadsBack lowerDigit := by decide

variable {digit : Nat → Char} (h : ReadsBack digit)

include h

theorem isSolid_pair (octet : UInt8) : WhiteSpace.IsSolid (pair digit octet) := by
  have low := octet.toNat_lt
  intro c mem
  rcases List.mem_pair.1 mem with rfl | rfl
  · exact (h _ (by omega)).2.1
  · exact (h _ (by omega)).2.1

/-- Each octet becomes the ASCII codes of its two digits. -/
theorem encode_pairs (octets : Octets) :
    Utf8.encode (String.ofList (octets.flatMap (pair digit))) = octets.flatMap fun octet =>
      [UInt8.ofNat (digit (octet.toNat / 16)).toNat,
        UInt8.ofNat (digit (octet.toNat % 16)).toNat] := by
  rw [Utf8.encode, String.toList_ofList, List.flatMap_assoc]
  congr 1
  funext octet
  have small := octet.toNat_lt
  have code {n : Nat} (below : n < 16) :
      Utf8.encodeChar (digit n) = [UInt8.ofNat (digit n).toNat] := if_pos (h n below).1
  rw [pair, List.flatMap_cons, List.flatMap_singleton, code (by omega), code (by omega)]
  rfl

theorem readPairs_encode (octets : Octets) (position : Nat) :
    readPairs position (octets.flatMap fun octet =>
      [UInt8.ofNat (digit (octet.toNat / 16)).toNat,
        UInt8.ofNat (digit (octet.toNat % 16)).toNat]) = .ok octets := by
  induction octets generalizing position with
  | nil => rfl
  | cons octet rest ih =>
      have small := octet.toNat_lt
      have back {n : Nat} (below : n < 16) (position : Nat) :
          readDigit (UInt8.ofNat (digit n).toNat) position = .ok n := by
        rw [readDigit, (h n below).2.2]
      have whole : UInt8.ofNat (octet.toNat / 16 * 16 + octet.toNat % 16) = octet := by
        rw [Nat.div_add_mod', UInt8.ofNat_toNat]
      rw [List.flatMap_cons, List.cons_append, List.singleton_append, readPairs, back (by omega),
        back (by omega), ih (position + 2)]
      exact congrArg (fun o => Except.ok (o :: rest)) whole

/-- Octets are read back from digits of either case. -/
theorem read_pairs (octets : Octets) :
    read (Utf8.encode (String.ofList (octets.flatMap (pair digit)))) = .ok octets := by
  have even : (octets.flatMap fun octet =>
      [UInt8.ofNat (digit (octet.toNat / 16)).toNat,
        UInt8.ofNat (digit (octet.toNat % 16)).toNat]).length % 2 = 0 := by
    induction octets with
    | nil => rfl
    | cons octet rest ih =>
        rw [List.flatMap_cons, List.length_append, List.length_cons, List.length_singleton]
        omega
  rw [encode_pairs h, read, even, if_neg (by decide), readPairs_encode h]

end Hexadecimal

/-! ## Octets in base 64 -/

namespace Base64

theorem value?_digit : ∀ n < 64, value? (digit n) = some n ∧ digit n ≠ '=' ∧
    WhiteSpace.isWhiteSpace (digit n) = false := by
  decide

/-- Groups of three octets are read back, and so is what is left of them behind the last group. -/
theorem decode?_encodeList (octets : Octets) : decode? (encodeList octets) = some octets := by
  fun_induction encodeList octets with
  | case1 => rfl
  | case2 a n =>
      have value : n = a.toNat * 16 := rfl
      clear_value n
      have small := a.toNat_lt
      obtain ⟨first, -, -⟩ := value?_digit (n / 64) (by omega)
      obtain ⟨second, -, -⟩ := value?_digit (n % 64) (by omega)
      have octet : bigEndian 1 (n / 16) = [a] :=
        bigEndian_eq rfl (by simp [ofBigEndian]; omega)
      rw [decode?, first, second]
      simp only [Option.bind_eq_bind, Option.bind_some, Nat.div_add_mod']
      rw [if_pos (by omega), octet]
  | case3 a b n =>
      have value : n = (a.toNat * 256 + b.toNat) * 4 := rfl
      clear_value n
      have small := a.toNat_lt
      have small' := b.toNat_lt
      obtain ⟨first, -, -⟩ := value?_digit (n / 4096) (by omega)
      obtain ⟨second, -, -⟩ := value?_digit (n / 64 % 64) (by omega)
      obtain ⟨third, unpadded, -⟩ := value?_digit (n % 64) (by omega)
      have octets : bigEndian 2 (n / 4) = [a, b] :=
        bigEndian_eq rfl (by simp [ofBigEndian]; omega)
      have joined : (n / 4096 * 64 + n / 64 % 64) * 64 + n % 64 = n := by omega
      rw [decode?, first, second, third]
      · simp only [Option.bind_eq_bind, Option.bind_some, joined]
        rw [if_pos (by omega), octets]
      · exact unpadded
  | case4 a b c rest n ih =>
      have value : n = (a.toNat * 256 + b.toNat) * 256 + c.toNat := rfl
      clear_value n
      have small := a.toNat_lt
      have small' := b.toNat_lt
      have small'' := c.toNat_lt
      obtain ⟨first, -, -⟩ := value?_digit (n / 262144) (by omega)
      obtain ⟨second, -, -⟩ := value?_digit (n / 4096 % 64) (by omega)
      obtain ⟨third, -, -⟩ := value?_digit (n / 64 % 64) (by omega)
      obtain ⟨fourth, unpadded, -⟩ := value?_digit (n % 64) (by omega)
      have octets : bigEndian 3 n = [a, b, c] :=
        bigEndian_eq rfl (by simp [ofBigEndian]; omega)
      have joined : ((n / 262144 * 64 + n / 4096 % 64) * 64 + n / 64 % 64) * 64 + n % 64 = n := by
        omega
      rw [decode?, first, second, third, fourth, ih]
      · simp only [Option.bind_eq_bind, Option.bind_some, joined, octets]
        rfl
      · exact fun _ padded _ => unpadded padded
      · exact fun padded _ => unpadded padded

theorem isWhiteSpace_digit (n : Nat) : WhiteSpace.isWhiteSpace (digit n) = false := by
  by_cases below : n < 64
  · exact (value?_digit n below).2.2
  · have last : digit n = '/' := by
      rw [digit, if_neg (by omega), if_neg (by omega), if_neg (by omega), if_neg (by omega)]
    rw [last]
    decide

theorem isSolid_encodeList (octets : Octets) : WhiteSpace.IsSolid (encodeList octets) := by
  have padding : WhiteSpace.isWhiteSpace '=' = false := by decide
  have none : WhiteSpace.IsSolid [] := fun c mem => absurd mem List.not_mem_nil
  fun_induction encodeList octets with
  | case1 => exact none
  | case2 a n => simp [WhiteSpace.isSolid_cons, isWhiteSpace_digit, padding, none]
  | case3 a b n => simp [WhiteSpace.isSolid_cons, isWhiteSpace_digit, padding, none]
  | case4 a b c rest n ih => simp [WhiteSpace.isSolid_cons, isWhiteSpace_digit, ih]

end Base64

/-! ## Identifiers -/

namespace Uuid

open Hexadecimal

/-- Five groups with hyphens between them are put together again. -/
theorem ungroup?_hyphens {a b c d e : List Char} (ha : a.length = 8) (hb : b.length = 4)
    (hc : c.length = 4) (hd : d.length = 4) :
    ungroup? (a ++ '-' :: (b ++ '-' :: (c ++ '-' :: (d ++ '-' :: e)))) =
      some (a ++ b ++ c ++ d ++ e) := by
  match a, ha, b, hb, c, hc, d, hd with
  | [_, _, _, _, _, _, _, _], _, [_, _, _, _], _, [_, _, _, _], _, [_, _, _, _], _ => rfl

theorem length_digits (u : Uuid) : (u.toOctets.flatMap (pair lowerDigit)).length = 32 := by
  have two (octets : Octets) : (octets.flatMap (pair lowerDigit)).length = 2 * octets.length := by
    induction octets with
    | nil => rfl
    | cons octet rest ih =>
        rw [List.flatMap_cons, List.length_append, ih, List.length_cons, pair, List.length_cons,
          List.length_singleton]
        omega
  rw [two, toOctets, length_bigEndian]

theorem toList_text (u : Uuid) :
    ∃ a b c d e, a ++ b ++ c ++ d ++ e = u.toOctets.flatMap (pair lowerDigit) ∧
      a.length = 8 ∧ b.length = 4 ∧ c.length = 4 ∧ d.length = 4 ∧ e.length = 12 ∧
      u.text.toList = a ++ '-' :: (b ++ '-' :: (c ++ '-' :: (d ++ '-' :: e))) := by
  have length := u.length_digits
  rw [text]
  generalize u.toOctets.flatMap (pair lowerDigit) = digits at length
  refine ⟨(digits.drop 0).take 8, (digits.drop 8).take 4, (digits.drop 12).take 4,
    (digits.drop 16).take 4, (digits.drop 20).take 12, ?_, ?_⟩
  · rw [List.drop_zero, ← List.take_add, ← List.take_add, ← List.take_add, ← List.take_add,
      List.take_of_length_le (Nat.le_of_eq length)]
  · simp only [List.length_take, List.length_drop, length, String.toList_intercalate]
    simp [List.intercalate]

theorem read?_text (u : Uuid) : read? u.text.toList = some u := by
  obtain ⟨a, b, c, d, e, whole, ha, hb, hc, hd, he, text⟩ := toList_text u
  have length : u.text.toList.length = 36 := by
    rw [text]
    simp only [List.length_append, List.length_cons, ha, hb, hc, hd, he]
  have count : u.toOctets.length = 16 := length_bigEndian 16 _
  have same : ofOctets u.toOctets = u := by
    rw [ofOctets, toOctets, ofBigEndian_bigEndian_of_lt u.number.isLt, BitVec.ofNat_toNat,
      BitVec.setWidth_eq]
  have hyphened : read? u.text.toList = (ungroup? u.text.toList).bind ofDigits? := by
    rw [read?, length]
    rfl
  rw [hyphened, text, ungroup?_hyphens ha hb hc hd, whole, Option.bind_some, ofDigits?,
    read_pairs readsBack_lowerDigit]
  exact if_pos count |>.trans (congrArg some same)

theorem isSolid_text (u : Uuid) : u.text.toList ≠ [] ∧ WhiteSpace.IsSolid u.text.toList := by
  obtain ⟨a, b, c, d, e, whole, ha, -, -, -, -, text⟩ := toList_text u
  have digits : WhiteSpace.IsSolid (a ++ b ++ c ++ d ++ e) :=
    whole ▸ WhiteSpace.isSolid_flatMap (isSolid_pair readsBack_lowerDigit)
  have hyphen : WhiteSpace.isWhiteSpace '-' = false := by decide
  rw [text]
  simp only [WhiteSpace.isSolid_append, WhiteSpace.isSolid_cons, hyphen, true_and] at digits ⊢
  obtain ⟨⟨⟨⟨one, two⟩, three⟩, four⟩, five⟩ := digits
  exact ⟨List.append_ne_nil_of_right_ne_nil _ (List.cons_ne_nil _ _), one, two, three, four, five⟩

end Uuid

/-! ## Values of every kind but floating point -/

namespace BuiltinAlgorithm

open WhiteSpace

theorem isSolid_of_digits {cs : List Char} (digits : ∀ c ∈ cs, Decimal.isDigit c = true) :
    IsSolid cs := by
  intro c mem
  have digit := digits c mem
  unfold Decimal.isDigit IntegerText.digit? at digit
  split at digit
  · next within =>
      simp only [Bool.and_eq_true, decide_eq_true_eq, Char.le_def, UInt32.le_iff_toNat_le] at within
      have least : 48 ≤ c.toNat := within.1
      have most : c.toNat ≤ 57 := within.2
      unfold isWhiteSpace
      generalize c.toNat = n at least most
      simp only [Bool.or_eq_false_iff, Bool.and_eq_false_iff, decide_eq_false_iff_not,
        beq_eq_false_iff_ne]
      omega
  · cases digit

theorem isSolid_toString (i : Int) : (toString i).toList ≠ [] ∧ IsSolid (toString i).toList := by
  cases i with
  | ofNat n =>
      exact ⟨Decimal.toList_repr_ne_nil n, isSolid_of_digits (Decimal.digits_of_repr n).1⟩
  | negSucc n =>
      rw [IntegerText.toList_toString_negSucc]
      exact ⟨List.cons_ne_nil _ _, isSolid_cons.2
        ⟨by decide, isSolid_of_digits (Decimal.digits_of_repr (n + 1)).1⟩⟩

/-- Integers of one width are read back as the list that was written. -/
theorem readWords_integers {α : Type} (b : BuiltinAlgorithm) (bits : Nat) {toInt : α → Int}
    {ofInt : Int → α} (least : ∀ x, -((2 ^ (bits - 1) : Nat) : Int) ≤ toInt x)
    (most : ∀ x, toInt x < ((2 ^ (bits - 1) : Nat) : Int)) (back : ∀ x, ofInt (toInt x) = x)
    (xs : List α) :
    ∃ is, b.readWords (readInteger bits) (joined (fun x => toString (toInt x)) xs) = .ok is ∧
      is.map ofInt = xs := by
  have read (x : α) : readInteger bits (toString (toInt x)).toList = .ok (toInt x) := by
    rw [readInteger, IntegerText.readSigned_toString (least x) (most x)]
    rfl
  have same : ofInt ∘ toInt = fun x => x := funext back
  refine ⟨_, readWords_joined (fun x (_ : x ∈ xs) => isSolid_toString (toInt x))
    fun x _ => read x, ?_⟩
  rw [List.map_map, same, List.map_id']

theorem isSolid_booleanText (x : Bool) :
    (booleanText x).toList ≠ [] ∧ IsSolid (booleanText x).toList := by
  revert x
  decide

theorem ofText_upper (os : Octets) :
    hexadecimal.ofText (Hexadecimal.upper os) = .ok (.octets os) := by
  have solid : IsSolid (os.flatMap (Hexadecimal.pair Hexadecimal.upperDigit)) :=
    isSolid_flatMap (Hexadecimal.isSolid_pair Hexadecimal.readsBack_upperDigit)
  rw [ofText, trim, Hexadecimal.upper, String.toList_ofList, trimList_of_isSolid solid,
    Hexadecimal.read_pairs Hexadecimal.readsBack_upperDigit]

theorem ofText_encode (os : Octets) : base64.ofText (Base64.encode os) = .ok (.octets os) := by
  have trimmed : (trim (Base64.encode os)).toList = Base64.encodeList os := by
    rw [trim, Base64.encode, String.toList_ofList, String.toList_ofList,
      trimList_of_isSolid (Base64.isSolid_encodeList os)]
  rw [ofText, trimmed, Base64.decode?_encodeList]

theorem ofText_booleans (xs : List Bool) :
    boolean.ofText (joined booleanText xs) = .ok (.booleans xs) := by
  have back : ∀ x : Bool, readBoolean (booleanText x).toList = .ok x := by decide
  rw [ofText, readWords_joined (fun x (_ : x ∈ xs) => isSolid_booleanText x) fun x _ => back x,
    List.map_id']
  rfl

theorem ofText_uuids (xs : List Uuid) : uuid.ofText (joined Uuid.text xs) = .ok (.uuids xs) := by
  have back (u : Uuid) : readUuid u.text.toList = .ok u := by
    rw [readUuid, Uuid.read?_text]
  rw [ofText, readWords_joined (fun u (_ : u ∈ xs) => u.isSolid_text) fun u _ => back u,
    List.map_id']
  rfl

variable {b : BuiltinAlgorithm} {v : TypedValue}

/-- A value is read back from its character form, if the algorithm is not one for floating-point
numbers. -/
theorem ofText_toText (taken : b.Takes v) (whole : b ≠ float ∧ b ≠ double) :
    ∃ text, b.toText v = .ok text ∧ b.ofText text = .ok v := by
  unfold Takes at taken
  split at taken
  case h_11 => exact taken.elim
  case h_1 os => exact ⟨_, rfl, ofText_upper os⟩
  case h_2 os => exact ⟨_, rfl, ofText_encode os⟩
  case h_3 xs =>
      obtain ⟨is, read, rfl⟩ :=
        readWords_integers short 16 Int16.le_toInt Int16.toInt_lt Int16.ofInt_toInt xs
      exact ⟨_, rfl, by rw [ofText, read]; rfl⟩
  case h_4 xs =>
      obtain ⟨is, read, rfl⟩ :=
        readWords_integers int 32 Int32.le_toInt Int32.toInt_lt Int32.ofInt_toInt xs
      exact ⟨_, rfl, by rw [ofText, read]; rfl⟩
  case h_5 xs =>
      obtain ⟨is, read, rfl⟩ :=
        readWords_integers long 64 Int64.le_toInt Int64.toInt_lt Int64.ofInt_toInt xs
      exact ⟨_, rfl, by rw [ofText, read]; rfl⟩
  case h_6 xs => exact ⟨_, rfl, ofText_booleans xs⟩
  case h_7 | h_8 => simp at whole
  case h_9 xs => exact ⟨_, rfl, ofText_uuids xs⟩
  case h_10 s => exact ⟨s, rfl, rfl⟩

theorem ofText_toText_shorts :
    ∃ text, short.toText (.shorts [-32768, 0, 32767]) = .ok text ∧
      short.ofText text = .ok (.shorts [-32768, 0, 32767]) :=
  ofText_toText trivial ⟨by decide, by decide⟩

end BuiltinAlgorithm

end BinaryXml
