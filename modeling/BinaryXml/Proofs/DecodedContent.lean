import BinaryXml.Proofs.CallSuccess
import BinaryXml.Proofs.ContentInStep
import BinaryXml.Proofs.DecodedDocuments

/-!
# Decoded content can be packed again

Packed octets are never empty, since their length is at least one. So what a built-in algorithm or
an alphabet makes of them can be packed again, and what is unknown about other octets stays
unknown. The octets that come of it need not be those that were read: alphabets and booleans have
bits to spare.
-/

namespace BinaryXml

/-! ## Values and text -/

namespace BuiltinAlgorithm

variable {b : BuiltinAlgorithm} {v : TypedValue} {octets written : Octets}

theorem exists_encode_of_decode (h : b.decode octets = .ok v) :
    ∃ written, b.encode v = .ok written := by
  cases b with
  | hexadecimal | base64 =>
      cases h
      exact ⟨_, rfl⟩
  | short | int | long | float | double | uuid =>
      obtain ⟨xs, -, rfl⟩ := eq_ok_of_map h
      exact ⟨_, rfl⟩
  | boolean | cdata =>
      rw [decode] at h
      split at h <;> cases h
      exact ⟨_, rfl⟩

theorem fixedWidth_nil {α : Type} {width : Nat} (positive : 0 < width) (read : Octets → α) :
    b.fixedWidth width read [] = .ok [] := by
  have none : groups width [] = [] := by
    rw [groups, if_neg]
    simp only [List.length_nil]
    omega
  rw [fixedWidth, none]
  exact if_pos (Nat.zero_mod width)

theorem eq_nil_of_fixedWidth {α : Type} {width : Nat} {read : Octets → α} (positive : 0 < width)
    (h : b.fixedWidth width read octets = .ok []) : octets = [] := by
  unfold fixedWidth at h
  split at h
  · next whole =>
      injection h with none
      rw [List.map_eq_nil_iff, groups] at none
      split at none
      · cases none
      · next short =>
          by_cases empty : octets.length = 0
          · exact List.length_eq_zero_iff.1 empty
          · have enough : width ≤ octets.length :=
              Nat.le_of_dvd (Nat.pos_of_ne_zero empty) (Nat.dvd_of_mod_eq_zero whole)
            exact absurd ⟨positive, enough⟩ short
  · cases h

/-- Only from no octets comes what is packed into none. -/
theorem ne_nil_of_encode_of_decode (h : b.decode octets = .ok v) (filled : octets ≠ [])
    (again : b.encode v = .ok written) : written ≠ [] := by
  rintro rfl
  have empty := decode_of_encode again
  apply filled
  cases b with
  | hexadecimal | base64 =>
      cases empty
      cases h
      rfl
  | short | int | long | float | double | uuid =>
      obtain ⟨xs, read, rfl⟩ := eq_ok_of_map h
      rw [decode, fixedWidth_nil (by decide)] at empty
      cases empty
      apply eq_nil_of_fixedWidth _ read
      decide
  | boolean => cases empty
  | cdata =>
      cases empty
      rw [decode] at h
      split at h
      · next text read =>
          cases h
          obtain ⟨cs, characters, none⟩ := eq_ok_of_map read
          by_cases blank : octets = []
          · exact blank
          · exact absurd (String.ofList_eq_empty_iff.1 none)
              (Utf8.ne_nil_of_decodeFrom characters blank)
      · cases h

end BuiltinAlgorithm

namespace Alphabet

/-- What is unpacked has characters of the alphabet only. -/
theorem contains_of_unpack {a : Alphabet} {id : UInt8} {held available : Nat} {octets : Octets} :
    ∀ cs, a.unpack id held available octets = .ok cs → cs.all a.contains := by
  fun_induction unpack a id held available octets with
  | case1 held available octets enough left code ended =>
      intro cs h
      cases h
      rfl
  | case2 held available octets enough left code going missing =>
      intro cs h
      cases h
  | case3 held available octets enough left code going c found ih =>
      intro cs h
      obtain ⟨rest, unpacked, rfl⟩ := eq_ok_of_map h
      have known : a.contains c = true := by
        rw [contains, Roster.indexOf?_eq_some.2 found]
        rfl
      rw [List.all_cons, known, ih rest unpacked]
      rfl
  | case4 held available short =>
      intro cs h
      cases h
      rfl
  | case5 held available short octet rest ih => exact ih

theorem exists_encode_of_decode {a : Alphabet} {id : UInt8} {octets : Octets} {text : String}
    (h : a.decode id octets = .ok text) : ∃ written, a.encode id text = .ok written := by
  obtain ⟨cs, unpacked, rfl⟩ := eq_ok_of_map h
  have packs := a.isOk_pack id 0 0 cs
  rw [contains_of_unpack cs unpacked] at packs
  rw [encode, String.toList_ofList]
  cases packed : a.pack id 0 0 cs with
  | ok written => exact ⟨written, rfl⟩
  | error cause =>
      rw [packed] at packs
      cases packs

end Alphabet

/-! ## What they stand for -/

/-- Content that can be written and read as it is, unless it is text without characters. -/
structure Content.IsRewritable (c : Codec) (content : Content) : Prop where
  encodable : content.IsEncodable c
  readable : content.IsReadable c
  written_eq : content.written c = content
  isVacuous_eq : content.isVacuous c = decide (content.asText? = some "")

namespace Content

variable {c : Codec} {id : UInt8} {octets : Octets}

theorem isRewritable_text (characters : String) : (text characters).IsRewritable c := by
  refine ⟨trivial, trivial, rfl, ?_⟩
  rw [isVacuous, asText?, Bool.eq_iff_iff]
  simp

theorem isRewritable_restricted {a : Alphabet} {characters : String}
    (known : c.alphabets.find? id = some a) (h : a.decode id octets = .ok characters) :
    (restricted id characters).IsRewritable c := by
  obtain ⟨written, packed⟩ := Alphabet.exists_encode_of_decode h
  have packs : isPackable c id characters = true := by
    rw [isPackable_eq, AlphabetRegistry.encode, AlphabetRegistry.get, known]
    change (a.encode id characters).isOk = true
    rw [packed]
    rfl
  refine ⟨trivial, trivial, if_pos packs, ?_⟩
  rw [isVacuous, asText?, Bool.eq_iff_iff]
  simp

theorem isRewritable_typed {b : BuiltinAlgorithm} {value : TypedValue}
    (known : BuiltinAlgorithm.ofId? id = some b) (h : b.decode octets = .ok value)
    (filled : octets ≠ []) : (typed id value).IsRewritable c := by
  obtain ⟨written, packed⟩ := BuiltinAlgorithm.exists_encode_of_decode h
  have encoded : c.algorithms.encode id value = .ok written := by
    rw [AlgorithmRegistry.encode, AlgorithmRegistry.get, AlgorithmRegistry.find?, known]
    exact packed
  refine ⟨⟨written, encoded⟩, fun unknown => ?_, rfl, ?_⟩
  · rw [known] at unknown
    cases unknown
  · have present := BuiltinAlgorithm.ne_nil_of_encode_of_decode h filled packed
    simp [isVacuous, encoded, asText?, present]

end Content

namespace Table

variable {kind : TableKind} {c : Codec} {t t' : Table kind String} {content content' : Content}

theorem eq_of_entered {add : Bool} {characters : Unit → Except AlgorithmError String}
    (h : resolveContent.entered t content add characters = .ok (content', t')) :
    content' = content := by
  unfold resolveContent.entered at h
  split at h
  · split at h
    · cases h
    · split at h <;> cases h
      rfl
  · cases h
    rfl

theorem eq_of_resolveUnknown {packing : Packing} {id : UInt8} {octets : Octets} {add : Bool}
    {cause : CodecError}
    (h : t.resolveUnknown c packing id octets add cause = .ok (content, t')) :
    content = .undecoded packing id octets ∧ c.config.unknownPacking = .keep := by
  unfold resolveUnknown at h
  split at h
  · cases h
  · next kept =>
      split at h <;> cases h
      exact ⟨rfl, by simpa using kept⟩

/-- With built-in algorithms alone, all content that is decoded can be written again. -/
theorem isRewritable_of_resolveContent (builtin : c.algorithms = {}) {r : Representation}
    (filled : r.IsFilled) (h : t.resolveContent c r = .ok (content, t')) :
    content.IsRewritable c := by
  cases r with
  | literal value add =>
      rw [resolveContent] at h
      rw [eq_of_entered h]
      exact Content.isRewritable_text value
  | indexed index =>
      rw [resolveContent] at h
      split at h <;> cases h
      exact Content.isRewritable_text _
  | packed packing id octets add =>
      have present := filled packing id octets add rfl
      cases packing with
      | algorithm =>
          rw [resolveContent] at h
          split at h
          · next unknown =>
              obtain ⟨rfl, kept⟩ := eq_of_resolveUnknown h
              exact ⟨present, ⟨unknown, kept⟩, rfl, rfl⟩
          · next algorithm known =>
              split at h
              · next value read =>
                  rw [eq_of_entered h]
                  rw [builtin, AlgorithmRegistry.find?] at known
                  split at known
                  · next b found =>
                      cases known
                      exact Content.isRewritable_typed found read present
                  · cases known
              · cases h
      | alphabet =>
          rw [resolveContent] at h
          split at h
          · next unknown =>
              obtain ⟨rfl, kept⟩ := eq_of_resolveUnknown h
              exact ⟨present, ⟨unknown, kept⟩, rfl, rfl⟩
          · next a known =>
              split at h
              · next text read =>
                  rw [eq_of_entered h]
                  exact Content.isRewritable_restricted known read
              · cases h

end Table

/-! ## Content in events -/

/-- Whatever is made of representations that were read has the property `P`. -/
def Codec.ResolvesTo (c : Codec) (P : Content → Prop) : Prop :=
  ∀ (v v' : Vocabulary) (kind : StringKind) (r : Representation) (content : Content),
    r.IsFilled → v.resolveContent c kind r = .ok (content, v') → P content

theorem Codec.resolvesTo_isRewritable {c : Codec} (builtin : c.algorithms = {}) :
    c.ResolvesTo (Content.IsRewritable c) := by
  intro v v' kind r content filled h
  obtain ⟨t, resolved, -⟩ := Vocabulary.updateStrings_eq_ok h
  exact Table.isRewritable_of_resolveContent builtin filled resolved

/-- All content of the event has the property `P`. -/
def Event.AllContent (P : Content → Prop) : Event → Prop
  | .startElement _ _ attributes => ∀ a ∈ attributes, P a.value
  | .characters content => P content
  | _ => True

namespace Decoder

/-- The attributes read so far have the property. -/
def Phase.AllContent (P : Content → Prop) : Phase → Prop
  | .attributes tag => tag.event.AllContent P
  | _ => True

/-- The content of the events completed has the property, and so has that of the element begun. -/
structure ContentStep (P : Content → Prop) (r : List Event × State) : Prop where
  events : ∀ event ∈ r.1, event.AllContent P
  phase : r.2.phase.AllContent P

variable {c : Codec} {P : Content → Prop}

theorem contentStep_single {event : Event} {v : Vocabulary} {depth : Nat}
    (h : event.AllContent P) : ContentStep P ([event], { vocabulary := v, depth }) :=
  ⟨List.forall_mem_singleton.2 h, trivial⟩

theorem contentStep_of_moves (resolves : c.ResolvesTo P) {s : State} {r : List Event × State}
    (before : s.phase.AllContent P) (h : Moves c s r) : ContentStep P r := by
  cases h with
  | finish => exact ⟨List.forall_mem_singleton.2 trivial, trivial⟩
  | stopTwice | stopAndFinish =>
      exact ⟨List.forall_mem_cons.2 ⟨trivial, List.forall_mem_singleton.2 trivial⟩, trivial⟩
  | stop | instruction | comment => exact contentStep_single trivial
  | characters inside filled resolved =>
      exact contentStep_single (resolves _ _ _ _ _ filled resolved)
  | declarations | declaration => exact ⟨nofun, trivial⟩
  | name => exact ⟨nofun, fun _ none => nomatch none⟩
  | element => exact contentStep_single fun _ none => nomatch none
  | attributed literals named filled resolved =>
      refine ⟨nofun, ?_⟩
      intro a mem
      rcases List.mem_cons.1 (List.mem_reverse.1 mem) with rfl | old
      · exact resolves _ _ _ _ _ filled resolved
      · exact before a (List.mem_reverse.2 old)
  | tag => exact contentStep_single before
  | emptyTag =>
      exact ⟨List.forall_mem_cons.2 ⟨before, List.forall_mem_singleton.2 trivial⟩, trivial⟩
  | ended => exact ⟨nofun, trivial⟩

/-- All content of the events that a run adds has the property. -/
theorem allContent_of_run (resolves : c.ResolvesTo P) {s : State} {before after : Array Event}
    {i : Input} {rest : Octets} (h : run c s before i = .ok (after, rest))
    (begun : s.phase.AllContent P) (started : ∀ event ∈ before.toList, event.AllContent P) :
    ∀ event ∈ after.toList, event.AllContent P := by
  apply forall_of_run (A := fun s => s.phase.AllContent P) _ h begun started
  intro s r before moves
  obtain ⟨events, phase⟩ := contentStep_of_moves resolves before moves
  exact ⟨events, phase⟩

end Decoder

end BinaryXml
