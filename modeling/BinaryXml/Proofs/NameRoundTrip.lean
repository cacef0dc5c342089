import BinaryXml.Proofs.RepresentationRoundTrip

/-!
# Reading back names, declarations and headers

The first octet of a written name tells its kind apart from everything that may stand in its
place: an element name is not taken for declarations, and an attribute name not for a terminator.
-/

namespace BinaryXml

-- Powers are those of `Nat` alone, whatever algebra is in scope.
attribute [local instance (high)] instPowNat

namespace NameRepresentation

/-- The parts of a name ask to be entered whether they say so or not. -/
def asIdentifying : NameRepresentation → NameRepresentation
  | indexed index => indexed index
  | parts nsPrefix namespaceName localName =>
    parts (nsPrefix.map (·.asIdentifying)) (namespaceName.map (·.asIdentifying))
      localName.asIdentifying

theorem toNat_partFlags (nsPrefix namespaceName : Option Representation) :
    (partFlags nsPrefix namespaceName).toNat =
      nsPrefix.isSome.toNat * 2 + namespaceName.isSome.toNat := by
  unfold partFlags
  cases nsPrefix.isSome <;> cases namespaceName.isSome <;> rfl

theorem yields_readPart {part : Option Representation} {octets : Octets}
    (h : (emitPart part).toExcept = .ok octets) :
    Yields (readPart part.isSome) octets (part.map (·.asIdentifying)) := by
  cases part with
  | none =>
      cases h
      exact yields_pure _
  | some part => exact (Representation.yields_readIdentifying h).map some

/-- The optional parts are read back from an octet that ends in their flags. -/
theorem yields_readOptionalParts {first : UInt8} {nsPrefix namespaceName : Option Representation}
    (allowed : ¬ (nsPrefix.isSome && namespaceName.isNone) = true)
    (flags : first.toNat % 4 = nsPrefix.isSome.toNat * 2 + namespaceName.isSome.toNat)
    {front back : Octets} (hp : (emitPart nsPrefix).toExcept = .ok front)
    (hn : (emitPart namespaceName).toExcept = .ok back) :
    Yields (readOptionalParts first) (front ++ back)
      (nsPrefix.map (·.asIdentifying), namespaceName.map (·.asIdentifying)) := by
  have pBound := Bool.toNat_le nsPrefix.isSome
  have nBound := Bool.toNat_le namespaceName.isSome
  have hasPrefix : first.toNat / 2 % 2 = nsPrefix.isSome.toNat := by omega
  have hasNamespace : first.toNat % 2 = namespaceName.isSome.toNat := by omega
  have consistent : ¬ (nsPrefix.isSome && !namespaceName.isSome) = true := by
    simpa using allowed
  simp only [readOptionalParts, hasPrefix, hasNamespace, Representation.beq_toNat]
  rw [if_neg consistent]
  refine (yields_readPart hp).bind.yields ?_
  exact (yields_readPart hn).bind

theorem yields_of_emitParts {fixed : UInt8} (hfixed : fixed.toNat % 4 = 0)
    {nsPrefix namespaceName localName : Option Representation} {octets : Octets}
    (h : (emitParts fixed nsPrefix namespaceName localName).toExcept = .ok octets) :
    ∃ (first : UInt8) (front back : Octets), octets = first :: (front ++ back) ∧
      first.toNat / 4 = fixed.toNat / 4 ∧ (emitPart localName).toExcept = .ok back ∧
      Yields (readOptionalParts first) front
        (nsPrefix.map (·.asIdentifying), namespaceName.map (·.asIdentifying)) := by
  unfold emitParts at h
  split at h
  · cases h
  · next allowed =>
      obtain ⟨front, back, hfront, hback, rfl⟩ := Emission.toExcept_append_eq_ok.1 h
      obtain ⟨start, namespaceOctets, hstart, hn, rfl⟩ := Emission.toExcept_append_eq_ok.1 hfront
      obtain ⟨head, prefixOctets, hhead, hp, rfl⟩ := Emission.toExcept_append_eq_ok.1 hstart
      cases hhead
      have pBound := Bool.toNat_le nsPrefix.isSome
      have nBound := Bool.toNat_le namespaceName.isSome
      have flags := toNat_partFlags nsPrefix namespaceName
      have joined : (fixed ||| partFlags nsPrefix namespaceName).toNat =
          fixed.toNat + (partFlags nsPrefix namespaceName).toNat := by
        have := toNat_or_ofNat (show 2 ≤ 8 by omega) hfixed
          (n := (partFlags nsPrefix namespaceName).toNat) (by omega)
        rwa [UInt8.ofNat_toNat] at this
      refine ⟨_, prefixOctets ++ namespaceOctets, back, rfl, by omega, hback, ?_⟩
      exact yields_readOptionalParts allowed (by omega) hp hn

theorem yields_readParts {first : UInt8} {front back : Octets}
    {nsPrefix namespaceName : Option Representation} {localName : Representation}
    (hoptional : Yields (readOptionalParts first) front (nsPrefix, namespaceName))
    (hlocal : localName.emitIdentifying.toExcept = .ok back) :
    Yields (readParts first) (front ++ back)
      (parts nsPrefix namespaceName localName.asIdentifying) := by
  refine hoptional.bind.yields ?_
  exact (Representation.yields_readIdentifying hlocal).bind

/-- The octets that announce the parts of the name of an element begin no index. -/
theorem rungOfMark?_eq_none_of_high {first : UInt8} (high : 60 ≤ first.toNat % 64) :
    indexOnThirdBit.rungOfMark? first = none := by
  rw [Ladder.rungOfMark?, List.find?_eq_none]
  simp only [indexOnThirdBit, Ladder.bits, List.mem_cons, List.not_mem_nil, or_false]
  rintro r (rfl | rfl | rfl | rfl) <;> simp [Rung.holdsMark] <;> omega

/-- The two bits in front of the name of an element are left as they are, and the other six are
never those that stand for declarations. -/
theorem yields_readElement {fixed : UInt8} (hfixed : fixed.toNat % 64 = 0)
    {r : NameRepresentation} {octets : Octets} (h : (r.emitElement fixed).toExcept = .ok octets) :
    ∃ first tail, octets = first :: tail ∧ first.toNat / 64 = fixed.toNat / 64 ∧
      first.toNat % 64 ≠ Mark.declarations.toNat ∧
      Yields (readElement first) tail r.asIdentifying := by
  cases r with
  | indexed index =>
      obtain ⟨first, tail, rfl, opens, yields⟩ :=
        Ladder.yields_of_emitIndex Ladder.sound_indexOnThirdBit hfixed h
      have kept : first.toNat / 64 = fixed.toNat / 64 := opens.fixed_eq
      have low : first.toNat % 64 < 0x31 := opens.free_lt 0x31 (by decide)
      obtain ⟨r, member, held⟩ := opens.held
      have found := Ladder.rungOfMark?_eq_some Ladder.sound_indexOnThirdBit member held
      refine ⟨first, tail, rfl, kept, Nat.ne_of_lt (Nat.lt_trans low (by decide)), ?_⟩
      rw [readElement, if_pos (by rw [found]; rfl)]
      exact yields.bind
  | parts nsPrefix namespaceName localName =>
      have marked : (fixed ||| 0x3C).toNat = fixed.toNat + 60 :=
        toNat_or_ofNat (show 6 ≤ 8 by omega) hfixed (show 60 < 2 ^ 6 by decide)
      obtain ⟨first, front, back, rfl, kept, hlocal, optional⟩ :=
        yields_of_emitParts (by omega) h
      have high : 60 ≤ first.toNat % 64 := by omega
      have notIndex := rungOfMark?_eq_none_of_high high
      have other : first.toNat % 64 ≠ Mark.declarations.toNat :=
        Nat.ne_of_gt (Nat.lt_of_lt_of_le (by decide) high)
      refine ⟨first, front ++ back, rfl, by omega, other, ?_⟩
      rw [readElement, notIndex, if_neg (by decide), if_pos (by omega)]
      exact yields_readParts optional hlocal

theorem yields_readAttribute {r : NameRepresentation} {octets : Octets}
    (h : r.emitAttribute.toExcept = .ok octets) :
    ∃ first tail, octets = first :: tail ∧ first.toNat < 0x80 ∧
      Yields (readAttribute first) tail r.asIdentifying := by
  cases r with
  | indexed index =>
      obtain ⟨first, tail, rfl, opens, yields⟩ :=
        Ladder.yields_of_emitIndex Ladder.sound_indexOnSecondBit (by decide) h
      have kept : first.toNat / 128 = 0 := opens.fixed_eq
      have low : first.toNat % 128 < 112 := opens.free_lt 112 (by decide)
      refine ⟨first, tail, rfl, by omega, ?_⟩
      rw [readAttribute, if_neg (by omega), if_pos (by omega)]
      exact yields.bind
  | parts nsPrefix namespaceName localName =>
      obtain ⟨first, front, back, rfl, kept, hlocal, optional⟩ := yields_of_emitParts (by decide) h
      have kept : first.toNat / 4 = 30 := kept
      refine ⟨first, front ++ back, rfl, by omega, ?_⟩
      rw [readAttribute, if_pos (by omega)]
      exact yields_readParts optional hlocal

end NameRepresentation

theorem NamespaceAttribute.yields_read {a : NamespaceAttribute} {octets : Octets}
    (h : a.emit.toExcept = .ok octets) :
    ∃ first tail, octets = first :: tail ∧ first.toNat / 4 = 0xCC / 4 ∧
      Yields (NamespaceAttribute.read first) tail
        ⟨a.nsPrefix.map (·.asIdentifying), a.namespaceName.map (·.asIdentifying)⟩ := by
  obtain ⟨first, front, back, rfl, kept, hlocal, optional⟩ :=
    NameRepresentation.yields_of_emitParts (by decide) h
  cases hlocal
  have kept : first.toNat / 4 = 0xCC / 4 := kept
  refine ⟨first, front ++ [], rfl, kept, ?_⟩
  rw [List.append_nil, NamespaceAttribute.read, kept, if_neg (by decide)]
  exact optional.bind

theorem Components.yields_read (components : Components) :
    Yields Components.read (identification ++ [components.flags]) components := by
  have known : ofFlags? components.flags = some components := by
    obtain ⟨vocabulary, standalone, version⟩ := components
    cases vocabulary <;> cases standalone <;> cases version <;> rfl
  refine (Parser.yields_slice identification).bind.yields ?_
  rw [if_neg (by simp)]
  refine (Parser.yields_octet components.flags).bind.done ?_
  rw [known]
  exact yields_pure components

end BinaryXml
