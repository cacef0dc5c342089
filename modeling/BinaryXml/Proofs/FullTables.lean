import BinaryXml.Proofs.ContentInStep

/-!
# Full tables

Past the last index that can be written a table takes no more entries, and the demand to enter a
string is ignored: the string is resolved as it would be without the demand, and the table stays as
it is. One kind of string is left out. Octets that are passed on undecoded are refused with the
demand, whether there is room for an entry or not, though nothing would be entered.
-/

namespace BinaryXml

namespace Representation

/-- The same string with the demand to enter it or without. An index demands nothing. -/
def demanding (add : Bool) : Representation → Representation
  | literal value _ => literal value add
  | indexed index => indexed index
  | packed packing id octets _ => packed packing id octets add

/-- Packed octets that the codec does not know how to unpack, and passes on. -/
def StaysPacked (c : Codec) (r : Representation) : Prop :=
  ∃ packing id octets add, r = packed packing id octets add ∧
    (Content.undecoded packing id octets).IsReadable c

end Representation

namespace Table

variable {kind : TableKind} {c : Codec} {t t' : Table kind String} {content : Content}

theorem entered_of_isFull (full : t.isFull = true) (content : Content) (add : Bool)
    (characters : Unit → Except AlgorithmError String) :
    resolveContent.entered t content add characters = .ok (content, t) := by
  rw [resolveContent.entered, full, Bool.not_true, Bool.and_false]
  rfl

theorem resolveContent_literal_of_isFull (full : t.isFull = true) (value : String) (add : Bool) :
    t.resolveContent c (.literal value add) = .ok (.text value, t) := by
  rw [resolveContent, entered_of_isFull full]

theorem eq_of_resolveContent_indexed {index : Nat}
    (h : t.resolveContent c (.indexed index) = .ok (content, t')) : t' = t := by
  rw [resolveContent] at h
  split at h <;> cases h
  rfl

/-- Octets that are unpacked, or refused for want of a way to unpack them, are so on any demand. -/
theorem resolveContent_packed_of_isFull (full : t.isFull = true) {packing : Packing} {id : UInt8}
    {octets : Octets} (unkept : ¬(Content.undecoded packing id octets).IsReadable c) (add : Bool) :
    t.resolveContent c (.packed packing id octets add) =
      (c.unpack packing id octets).map (·, t) := by
  cases packing with
  | algorithm =>
      rw [resolveContent, Codec.unpack]
      cases known : c.algorithms.find? id with
      | none =>
          have fails : c.config.unknownPacking ≠ .keep := fun keeps => unkept ⟨known, keeps⟩
          dsimp only
          rw [resolveUnknown, Codec.keepUnknown, if_pos fails, if_pos fails]
          rfl
      | some algorithm =>
          dsimp only
          cases algorithm.decode octets with
          | error cause => rfl
          | ok value => exact entered_of_isFull full _ _ _
  | alphabet =>
      rw [resolveContent, Codec.unpack]
      cases known : c.alphabets.find? id with
      | none =>
          have fails : c.config.unknownPacking ≠ .keep := fun keeps => unkept ⟨known, keeps⟩
          dsimp only
          rw [resolveUnknown, Codec.keepUnknown, if_pos fails, if_pos fails]
          rfl
      | some alphabet =>
          dsimp only
          cases alphabet.decode id octets with
          | error cause => rfl
          | ok text => exact entered_of_isFull full _ _ _

/-- Whether the table is full or not, octets are passed on only if nothing is to be entered. -/
theorem resolveContent_undecoded {packing : Packing} {id : UInt8} {octets : Octets}
    (kept : (Content.undecoded packing id octets).IsReadable c) (add : Bool) :
    t.resolveContent c (.packed packing id octets add) =
      if add then
        .error (.format (.unsupportedRepresentation "indexed content" "opaque octets"))
      else .ok (.undecoded packing id octets, t) := by
  cases packing with
  | algorithm =>
      rw [resolveContent, kept.1]
      exact if_neg (not_not_intro kept.2)
  | alphabet =>
      rw [resolveContent, kept.1]
      exact if_neg (not_not_intro kept.2)

/-- A full table stays as it is, and makes the same of a string with the demand to enter it and
without, but for octets that are passed on undecoded: with the demand they are refused. -/
theorem resolveContent_of_isFull (c : Codec) (t : Table kind String) (full : t.isFull = true)
    (r : Representation) :
    (∀ content t', t.resolveContent c r = .ok (content, t') → t' = t) ∧
      (t.resolveContent c (r.demanding true) = t.resolveContent c (r.demanding false) ↔
        ¬r.StaysPacked c) ∧
      (r.StaysPacked c →
        t.resolveContent c (r.demanding true) =
            .error (.format (.unsupportedRepresentation "indexed content" "opaque octets")) ∧
          ∃ content, t.resolveContent c (r.demanding false) = .ok (content, t)) := by
  cases r with
  | literal value add =>
      have unpacked : ¬(Representation.literal value add).StaysPacked c := nofun
      have same (add : Bool) := resolveContent_literal_of_isFull (c := c) full value add
      refine ⟨?_, iff_of_true ?_ unpacked, fun stays => absurd stays unpacked⟩
      · intro content t' resolved
        rw [same] at resolved
        cases resolved
        rfl
      · exact (same true).trans (same false).symm
  | indexed index =>
      have unpacked : ¬(Representation.indexed index).StaysPacked c := nofun
      exact ⟨fun _ _ => eq_of_resolveContent_indexed, iff_of_true rfl unpacked,
        fun stays => absurd stays unpacked⟩
  | packed packing id octets add =>
      by_cases kept : (Content.undecoded packing id octets).IsReadable c
      · have stays : (Representation.packed packing id octets add).StaysPacked c :=
          ⟨packing, id, octets, add, rfl, kept⟩
        have refused := resolveContent_undecoded (t := t) kept true
        have passed := resolveContent_undecoded (t := t) kept false
        refine ⟨?_, iff_of_false ?_ (not_not_intro stays), fun _ => ⟨refused, _, passed⟩⟩
        · intro content t' resolved
          rw [resolveContent_undecoded kept] at resolved
          split at resolved <;> cases resolved
          rfl
        · simp only [Representation.demanding, refused, passed]
          nofun
      · have unpacked : ¬(Representation.packed packing id octets add).StaysPacked c := by
          rintro ⟨_, _, _, _, ⟨⟩, readable⟩
          exact kept readable
        have same (add : Bool) := resolveContent_packed_of_isFull full kept add
        refine ⟨?_, iff_of_true ?_ unpacked, fun stays => absurd stays unpacked⟩
        · intro content t' resolved
          rw [same] at resolved
          obtain ⟨_, -, both⟩ := eq_ok_of_map resolved
          cases both
          rfl
        · exact (same true).trans (same false).symm

/-- Strings of one letter, each by one longer than the one before it. -/
def letterRuns (count : Nat) : List String :=
  (List.range count).map fun length => String.ofList (List.replicate length 'a')

theorem length_letterRuns (count : Nat) : (letterRuns count).length = count := by
  simp [letterRuns]

theorem nodup_letterRuns (count : Nat) : (letterRuns count).Nodup := by
  refine List.Pairwise.map _ (fun length length' different same => ?_) List.nodup_range
  have lengths := congrArg (·.toList.length) same
  simp only [String.toList_ofList, List.length_replicate] at lengths
  exact different lengths

/-- A table of so many entries. -/
def crowded (kind : TableKind) (count : Nat) : Table kind String where
  base := Roster.ofNodup (letterRuns count) (nodup_letterRuns count)

theorem size_crowded (kind : TableKind) (count : Nat) : (crowded kind count).base.size = count := by
  have entries : (crowded kind count).base.toList.length = count := by
    rw [crowded, Roster.toList_ofNodup, length_letterRuns]
  exact Array.length_toList.symm.trans entries

/-- As many entries as can have an index that is written leave no room. -/
theorem isFull_crowded (kind : TableKind) : (crowded kind indexLimit).isFull = true := by
  simp [isFull, nextIndex, size_crowded]

/-- An octet of an algorithm that nobody registered is refused where the same octet of a built-in
one is unpacked. -/
theorem resolveContent_of_isFull_undecoded :
    let c : Codec := { config := { unknownPacking := .keep } }
    let t := crowded (.strings .characterChunk) indexLimit
    t.isFull = true ∧
      (Representation.packed .algorithm 40 [0x01] true).StaysPacked c ∧
      t.resolveContent c (.packed .algorithm 40 [0x01] true) =
        .error (.format (.unsupportedRepresentation "indexed content" "opaque octets")) ∧
      t.resolveContent c (.packed .algorithm 40 [0x01] false) =
        .ok (.undecoded .algorithm 40 [0x01], t) ∧
      t.resolveContent c (.packed .algorithm 0 [0x01] true) =
        t.resolveContent c (.packed .algorithm 0 [0x01] false) := by
  intro c t
  have full := isFull_crowded (.strings .characterChunk)
  have stays : (Representation.packed .algorithm 40 [0x01] true).StaysPacked c :=
    ⟨_, _, _, _, rfl, rfl, rfl⟩
  obtain ⟨-, -, differs⟩ := resolveContent_of_isFull c t full (.packed .algorithm 40 [0x01] true)
  obtain ⟨-, alike, -⟩ := resolveContent_of_isFull c t full (.packed .algorithm 0 [0x01] true)
  refine ⟨full, stays, (differs stays).1, rfl, alike.2 ?_⟩
  rintro ⟨_, _, _, _, ⟨⟩, unknown, -⟩
  cases unknown

end Table

end BinaryXml
