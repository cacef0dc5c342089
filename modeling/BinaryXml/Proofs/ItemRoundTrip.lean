import BinaryXml.Proofs.ContentInStep
import BinaryXml.Proofs.DecoderProgress
import BinaryXml.Proofs.NamesInStep

/-!
# Reading back items

For every kind of item, one step of a decoder with the settled tables of the writer takes the
octets of the item, completes what the item stands for, and leaves the decoder with the settled
tables of the writer after the entries of the item were made.
-/

namespace BinaryXml

namespace Item

/-- The tables of the writer once the entries of the item are made. -/
def enterInto (item : Item) (t : Tables) : Tables := item.entries.foldl .enter t

def IsFresh (item : Item) (t : Tables) : Prop := item.entries.findSome? t.conflict? = none

theorem ofEmission_eq_ok {e : Emission} {entries : List Entry} {item : Item}
    (h : ofEmission e entries = .ok item) :
    e.toExcept = .ok item.octets ∧ item.entries = entries := by
  unfold ofEmission at h
  split at h
  · next octets emitted =>
      cases h
      exact ⟨emitted, rfl⟩
  · cases h

/-- A single entry is fresh if it does not conflict. -/
theorem IsFresh.single {item : Item} {t : Tables} {e : Entry} (h : item.IsFresh t)
    (one : item.entries = [e]) : t.conflict? e = none := by
  unfold IsFresh at h
  rw [one, List.findSome?_eq_none_iff] at h
  exact h e (List.mem_singleton_self e)

theorem enterInto_single {item : Item} {t : Tables} {e : Entry} (one : item.entries = [e]) :
    item.enterInto t = t.enter e := by
  rw [enterInto, one]
  rfl

/-! ## Content -/

theorem ofCharacters?_eq_some {c : Codec} {t : Tables} {content : Content} {item : Item}
    (h : ofCharacters? c t content = .ok (some item)) :
    ∃ r, t.represent? c .characterChunk content = .ok (some r) ∧
      ofEmission (r.emitChunk c.config.characterEncoding) [.string .characterChunk r] =
        .ok item := by
  unfold ofCharacters? at h
  cases represented : t.represent? c .characterChunk content with
  | error cause => rw [represented] at h; cases h
  | ok r? =>
      rw [represented] at h
      cases r? with
      | none => cases h
      | some r =>
          change (some <$> ofEmission _ _ : Except _ _) = _ at h
          refine ⟨r, rfl, ?_⟩
          cases made : ofEmission (r.emitChunk c.config.characterEncoding)
              [.string .characterChunk r] with
          | error cause => rw [made] at h; cases h
          | ok item => rw [made] at h; cases h; rfl

theorem represented_of_ofCharacters? {c : Codec} {t : Tables} {content : Content}
    {item? : Option Item} (h : ofCharacters? c t content = .ok item?) :
    ∃ r?, t.represent? c .characterChunk content = .ok r? := by
  unfold ofCharacters? at h
  cases represented : t.represent? c .characterChunk content with
  | error cause => rw [represented] at h; cases h
  | ok r? => exact ⟨r?, rfl⟩

theorem isVacuous_of_ofCharacters? {c : Codec} {t : Tables} {content : Content}
    {item? : Option Item} (h : ofCharacters? c t content = .ok item?) :
    content.isVacuous c = item?.isNone := by
  cases item? with
  | some item =>
      obtain ⟨r, represented, -⟩ := ofCharacters?_eq_some h
      rw [Tables.isVacuous_of_represent represented]
      rfl
  | none =>
      unfold ofCharacters? at h
      cases represented : t.represent? c .characterChunk content with
      | error cause => rw [represented] at h; cases h
      | ok r? =>
          rw [Tables.isVacuous_of_represent represented]
          rw [represented] at h
          cases r? with
          | none => rfl
          | some r =>
              change (some <$> ofEmission _ _ : Except _ _) = _ at h
              cases made : ofEmission (r.emitChunk c.config.characterEncoding)
                  [.string .characterChunk r] with
              | error cause => rw [made] at h; cases h
              | ok item => rw [made] at h; cases h

theorem ofValue_eq_ok {c : Codec} {t : Tables} {value : Content} {item : Item}
    (h : ofValue c t value = .ok item) :
    ∃ r?, t.represent? c .attributeValue value = .ok r? ∧
      ofEmission ((r?.getD (t.nonIdentifying c .attributeValue "")).emitNonIdentifying
          c.config.characterEncoding)
        [.string .attributeValue (r?.getD (t.nonIdentifying c .attributeValue ""))] =
          .ok item := by
  unfold ofValue at h
  cases represented : t.represent? c .attributeValue value with
  | error cause => rw [represented] at h; cases h
  | ok r? => rw [represented] at h; exact ⟨r?, rfl, h⟩

end Item

/-! ## Names -/

/-- The name that a reference stands for. -/
def NameReference.name? (v : Vocabulary) (kind : NameKind) : NameReference → Option QualifiedName
  | .named name => some name
  | .indexed index => (v.names kind).get? index
  | .localIndexed nsPrefix namespaceName index =>
    (v.localNames.get? index).map fun localName => { nsPrefix, namespaceName, localName }

namespace Item

variable {t : Tables} {kind : NameKind} {item : Item}

theorem resolveName_of_ofNewName {name : QualifiedName} {localName : Representation}
    (denotes : t.Denotes .localName name.localName localName)
    (h : ofNewName t kind name localName = .ok item) (fresh : item.IsFresh t) :
    ∃ r, (emitName kind r).toExcept = .ok item.octets ∧
      t.vocabulary.settled.resolveName kind r.asIdentifying =
        .ok (name, (item.enterInto t).vocabulary.settled) := by
  obtain ⟨emitted, entries⟩ := ofEmission_eq_ok h
  exact ⟨_, emitted, Tables.resolveName_of_denotes (t.partDenotes_of_present _ _)
    (t.partDenotes_of_present _ _) denotes entries fresh⟩

theorem resolveName_of_ofNameIndex {name : QualifiedName} {index : Nat}
    (held : (t.vocabulary.names kind).get? index = some name)
    (h : ofNameIndex kind index = .ok item) :
    ∃ r, (emitName kind r).toExcept = .ok item.octets ∧
      t.vocabulary.settled.resolveName kind r.asIdentifying =
        .ok (name, (item.enterInto t).vocabulary.settled) := by
  obtain ⟨emitted, entries⟩ := ofEmission_eq_ok h
  have found : (t.vocabulary.settled.names kind).get index = .ok name := by
    rw [Vocabulary.settled_names]
    exact Table.get_eq_ok.2 held
  refine ⟨_, emitted, ?_⟩
  rw [NameRepresentation.asIdentifying, Vocabulary.resolveName, found, enterInto, entries]
  rfl

/-- However a name was given, the reader resolves it to the name that the writer knows. -/
theorem resolveName_of_ofName {reference : NameReference} (h : ofName t kind reference = .ok item)
    (fresh : item.IsFresh t) :
    ∃ name r, reference.name? t.vocabulary kind = some name ∧
      (emitName kind r).toExcept = .ok item.octets ∧
      t.vocabulary.settled.resolveName kind r.asIdentifying =
        .ok (name, (item.enterInto t).vocabulary.settled) := by
  cases reference with
  | named name =>
      refine ⟨name, ?_⟩
      rw [ofName] at h
      split at h
      · next index held =>
          obtain ⟨r, read⟩ := resolveName_of_ofNameIndex
            (Table.get?_of_indexOf? (Table.indexOf?_of_wireIndex? held)) h
          exact ⟨r, rfl, read⟩
      · obtain ⟨r, read⟩ := resolveName_of_ofNewName (t.denotes_identifying _ _) h fresh
        exact ⟨r, rfl, read⟩
  | indexed index =>
      rw [ofName] at h
      split at h
      · next name held =>
          have held := Table.get_eq_ok.1 held
          obtain ⟨r, read⟩ := resolveName_of_ofNameIndex held h
          exact ⟨name, r, held, read⟩
      · cases h
  | localIndexed nsPrefix namespaceName index =>
      rw [ofName] at h
      split at h
      · cases h
      · next localName held =>
          have held := Table.get_eq_ok.1 held
          dsimp only at h
          split at h
          · cases h
          · have denotes : t.Denotes .localName localName (.indexed index) := held
            obtain ⟨r, read⟩ := resolveName_of_ofNewName denotes h fresh
            refine ⟨_, r, ?_, read⟩
            rw [NameReference.name?, held]
            rfl

end Item

namespace Decoder

open BinaryXml.Representation

variable {c : Codec} {t : Tables} {item : Item}

/-! ## Items among children -/

theorem step_of_octet {first : UInt8} {tail : Octets} {s : State} {k : Reading (List Event × State)}
    (h : Becomes (readAfter c s first) tail k) : Becomes (step c s) (first :: tail) k :=
  (Reading.yields_ofParser (Parser.yields_octet first)).bind.trans h

theorem yields_comment {text : String} (h : Item.ofComment c t text = .ok item)
    (fresh : item.IsFresh t) (depth : Nat) :
    Yields (step c { vocabulary := t.vocabulary.settled, depth }) item.octets
      ([.comment text], { vocabulary := (item.enterInto t).vocabulary.settled, depth }) := by
  obtain ⟨emitted, entries⟩ := Item.ofEmission_eq_ok h
  obtain ⟨mark, octets, hmark, hoctets, split⟩ := Emission.toExcept_append_eq_ok.1 emitted
  cases hmark
  rw [split, Item.enterInto_single entries]
  refine step_of_octet ?_
  have read := yields_readNonIdentifying hoctets
  rw [Tables.asNonIdentifying_nonIdentifying] at read
  refine (Reading.yields_ofParser read).bind.done ?_
  exact (Reading.yields_ofExcept
    (Tables.resolveText_nonIdentifying (fresh.single entries))).bind.done (yields_pure _)

theorem yields_instruction {target data : String}
    (h : Item.ofInstruction c t target data = .ok item) (fresh : item.IsFresh t) (depth : Nat) :
    Yields (step c { vocabulary := t.vocabulary.settled, depth }) item.octets
      ([.instruction target data],
        { vocabulary := (item.enterInto t).vocabulary.settled, depth }) := by
  obtain ⟨emitted, entries⟩ := Item.ofEmission_eq_ok h
  obtain ⟨front, dataOctets, hfront, hdata, split⟩ := Emission.toExcept_append_eq_ok.1 emitted
  obtain ⟨mark, targetOctets, hmark, htarget, rfl⟩ := Emission.toExcept_append_eq_ok.1 hfront
  cases hmark
  unfold Item.IsFresh at fresh
  rw [entries, List.findSome?_eq_none_iff] at fresh
  have targetFresh := fresh _ List.mem_cons_self
  obtain ⟨u, hu⟩ : ∃ u, u = t.enter (.string .otherNcName (t.identifying .otherNcName target)) :=
    ⟨_, rfl⟩
  have kept : t.vocabulary.strings .otherString = u.vocabulary.strings .otherString := by
    rw [hu, Tables.strings_enter_of_ne t (by decide)]
  have same : t.nonIdentifying c .otherString data = u.nonIdentifying c .otherString data := by
    simp only [Tables.nonIdentifying, Tables.taken, kept]
  have dataFresh : u.conflict? (.string .otherString (u.nonIdentifying c .otherString data)) =
      none := by
    rw [← Tables.conflict?_congr kept, ← same]
    exact fresh _ (List.mem_cons_of_mem _ (List.mem_singleton_self _))
  have readTarget := Tables.resolvePart_of_denotes
    (t.denotes_identifying .otherNcName target) targetFresh
  rw [← hu] at readTarget
  have readData := yields_readNonIdentifying hdata
  rw [Tables.asNonIdentifying_nonIdentifying, same] at readData
  have tables : item.enterInto t =
      u.enter (.string .otherString (u.nonIdentifying c .otherString data)) := by
    rw [Item.enterInto, entries, ← same, hu]
    rfl
  rw [split, tables]
  refine step_of_octet ?_
  refine (Reading.yields_ofParser (yields_readIdentifying htarget)).bind.yields ?_
  refine (Reading.yields_ofExcept readTarget).bind.before ?_
  refine (Reading.yields_ofParser readData).bind.done ?_
  exact (Reading.yields_ofExcept
    (Tables.resolveText_nonIdentifying dataFresh)).bind.done (yields_pure _)

theorem readItem_of_chunk {first : UInt8} (chunk : first.toNat / 64 = 2) (v : Vocabulary)
    {depth : Nat} (inside : 0 < depth) :
    readItem c v depth first = readCharacters c v depth first := by
  have other {mark : UInt8} (h : mark.toNat / 64 ≠ 2) : first ≠ mark := by
    rintro rfl
    exact h chunk
  unfold readItem
  rw [if_neg (other (by decide)), if_neg (other (by decide)), if_neg (other (by decide)),
    if_neg (other (by decide)), if_neg (by omega), if_pos ⟨by omega, inside⟩]

/-- A chunk stands inside an element, and becomes what the reader receives of the content. -/
theorem becomes_characters {content : Content}
    (h : Item.ofCharacters? c t content = .ok (some item)) (fresh : item.IsFresh t) {depth : Nat}
    (inside : 0 < depth) :
    Becomes (step c { vocabulary := t.vocabulary.settled, depth }) item.octets (do
      let content ← Reading.ofExcept (content.received c)
      return ([.characters content],
        { vocabulary := (item.enterInto t).vocabulary.settled, depth })) := by
  obtain ⟨r, represented, made⟩ := Item.ofCharacters?_eq_some h
  obtain ⟨emitted, entries⟩ := Item.ofEmission_eq_ok made
  obtain ⟨first, tail, split, chunk, read⟩ := yields_readChunk emitted
  rw [split, Item.enterInto_single entries]
  refine step_of_octet ?_
  change Becomes (readItem _ _ _ _) _ _
  rw [readItem_of_chunk chunk _ inside]
  refine (Reading.yields_ofParser read).bind.of_eq ?_
  rw [Tables.resolveContent_of_represent represented (fresh.single entries)]
  exact Reading.ofExcept_map_bind _ _ _

end Decoder

end BinaryXml
