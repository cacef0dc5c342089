import BinaryXml.Proofs.HeaderRoundTrip
import BinaryXml.Proofs.Session

/-!
# A decoder follows a session

At every point of a session a decoder that reads what was written so far is as far as the writer:
it has completed the events of the transcript and has the settled tables of the writer. What that
means depends on the stage. The first octet of an element may still change until its attributes
are announced, so in the start of an element both possibilities are followed; a terminator that is
held back may become half of a double one, so the decoder is followed up to it as well.
-/

namespace BinaryXml

open Decoder

def Transcript.tag (t : Transcript) : Tag where
  name := t.name
  declarations := t.declarations
  attributes := t.attributes.reverse

namespace Writer

/-- A decoder between items that is as far as the writer. -/
def readerState (w : Writer) : Decoder.State where
  vocabulary := w.tables.vocabulary.settled
  depth := w.depth

/-- Between items. -/
structure AtItem (c : Codec) (w : Writer) (t : Transcript) : Prop where
  arrives : Arrives c w.flushed t.events w.readerState
  owed : w.pending = .single → ∃ events completed s, Arrives c w.octets events s ∧
    Yields (step c s) [Mark.terminator] (completed, w.readerState) ∧ t.events = events ++ completed

/-- In the start of an element, which has the octets `tail` so far. -/
structure InStart (c : Codec) (w : Writer) (t : Transcript) (base tail : Octets)
    (v : Vocabulary) : Prop where
  octets_eq : w.octets = base ++ tail
  marked : w.markedAt? = some base.length
  settled : w.pending = .none
  arrives : Arrives c base t.events { vocabulary := v, depth := w.depth }

/-- Whether attributes follow or not, the start of the element is read up to declarations. -/
def ReadsDeclarations (c : Codec) (w : Writer) (t : Transcript) (tail : Octets) (v : Vocabulary) :
    Prop :=
  tail ≠ [] ∧ ∀ attributed, Passes c { vocabulary := v, depth := w.depth } (flagged attributed tail)
    [] { w.readerState with phase := .declarations attributed t.declarations.reverse }

/-- Whether attributes follow or not, the start of the element is read up to its name. -/
def ReadsName (c : Codec) (w : Writer) (t : Transcript) (tail : Octets) (v : Vocabulary) : Prop :=
  tail ≠ [] ∧ ∀ attributed, Passes c { vocabulary := v, depth := w.depth } (flagged attributed tail)
    (named w.tables.vocabulary.settled w.depth attributed t.tag).1
    (named w.tables.vocabulary.settled w.depth attributed t.tag).2

/-- A decoder has read everything and is at the attributes of the element. -/
structure AtAttributes (c : Codec) (w : Writer) (t : Transcript) : Prop where
  settled : w.pending = .none
  arrives : Arrives c w.octets t.events { w.readerState with phase := .attributes t.tag }

/-- Only the value is left to read of an attribute. -/
structure AtValue (c : Codec) (w : Writer) (t : Transcript) (front back : Octets)
    (s : Decoder.State) : Prop where
  settled : w.pending = .none
  octets_eq : w.octets = front ++ back
  arrives : Arrives c front t.events s
  reads : Becomes (step c s) back
    (readValue c w.tables.vocabulary.settled w.depth t.tag t.attributeName)

/-- Nothing was written yet. -/
structure Untouched (c : Codec) (w : Writer) (t : Transcript) : Prop where
  octets_eq : w.octets = []
  settled : w.pending = .none
  depth_eq : w.depth = 0
  start : w.tables.vocabulary.settled = c.startingVocabulary
  blank : t.events = []

/-- A decoder is as far as the writer and has completed the events of the transcript. -/
def InStep (c : Codec) (w : Writer) (t : Transcript) : Prop :=
  match w.stage with
  | .idle => Untouched c w t
  | .started => AtItem c w t
  | .content => AtItem c w t
  | .marked => InStart c w t w.octets [] w.tables.vocabulary.settled ∧ t.declarations = []
  | .declaring => ∃ base tail v, InStart c w t base tail v ∧ ReadsDeclarations c w t tail v
  | .declared => ∃ base tail v, InStart c w t base (tail ++ [Mark.terminator]) v ∧
      ReadsDeclarations c w t tail v
  | .named => ∃ base tail v, InStart c w t base tail v ∧ ReadsName c w t tail v
  | .attributes => AtAttributes c w t
  | .value => ∃ front back s, AtValue c w t front back s
  | .poisoned => False

variable {c : Codec} {w w' : Writer} {t : Transcript} {item : Item}

section Alike

variable {base tail front back : Octets} {v : Vocabulary} {s : Decoder.State}

/-- The writers differ at most in what no decoder sees. -/
structure Alike (w w' : Writer) : Prop where
  octets_eq : w'.octets = w.octets
  markedAt_eq : w'.markedAt? = w.markedAt?
  pending_eq : w'.pending = w.pending
  depth_eq : w'.depth = w.depth
  settled_eq : w'.tables.vocabulary.settled = w.tables.vocabulary.settled

theorem alike_moveTo (w : Writer) (stage : Stage) : Alike w { w with stage } :=
  ⟨rfl, rfl, rfl, rfl, rfl⟩

theorem Agrees.alike (h : Agrees w w') : Alike w w' :=
  ⟨h.octets_eq, h.markedAt_eq, h.pending_eq, h.depth_eq, by rw [h.tables_eq]⟩

theorem Alike.readerState_eq (h : Alike w w') : w'.readerState = w.readerState := by
  rw [readerState, h.settled_eq, h.depth_eq]
  rfl

theorem AtItem.of_alike (h : AtItem c w t) (alike : Alike w w') : AtItem c w' t where
  arrives := by
    rw [flushed, alike.octets_eq, alike.pending_eq, alike.readerState_eq]
    exact h.arrives
  owed := by
    rw [alike.octets_eq, alike.pending_eq, alike.readerState_eq]
    exact h.owed

theorem InStart.of_alike (h : InStart c w t base tail v) (alike : Alike w w') :
    InStart c w' t base tail v where
  octets_eq := alike.octets_eq.trans h.octets_eq
  marked := alike.markedAt_eq.trans h.marked
  settled := alike.pending_eq.trans h.settled
  arrives := by
    rw [alike.depth_eq]
    exact h.arrives

theorem ReadsDeclarations.of_alike (h : ReadsDeclarations c w t tail v) (alike : Alike w w') :
    ReadsDeclarations c w' t tail v := by
  unfold ReadsDeclarations
  rw [alike.readerState_eq, alike.depth_eq]
  exact h

theorem ReadsName.of_alike (h : ReadsName c w t tail v) (alike : Alike w w') :
    ReadsName c w' t tail v := by
  unfold ReadsName
  rw [alike.settled_eq, alike.depth_eq]
  exact h

theorem AtAttributes.of_alike (h : AtAttributes c w t) (alike : Alike w w') :
    AtAttributes c w' t where
  settled := alike.pending_eq.trans h.settled
  arrives := by
    rw [alike.octets_eq, alike.readerState_eq]
    exact h.arrives

theorem AtValue.of_alike (h : AtValue c w t front back s) (alike : Alike w w') :
    AtValue c w' t front back s where
  settled := alike.pending_eq.trans h.settled
  octets_eq := alike.octets_eq.trans h.octets_eq
  arrives := h.arrives
  reads := by
    rw [alike.settled_eq, alike.depth_eq]
    exact h.reads

theorem Untouched.of_alike (h : Untouched c w t) (alike : Alike w w') : Untouched c w' t where
  octets_eq := alike.octets_eq.trans h.octets_eq
  settled := alike.pending_eq.trans h.settled
  depth_eq := alike.depth_eq.trans h.depth_eq
  start := alike.settled_eq.trans h.start
  blank := h.blank

theorem InStep.of_alike (h : InStep c w t) (alike : Alike w w') (stage : w'.stage = w.stage) :
    InStep c w' t := by
  unfold InStep at h ⊢
  rw [stage]
  cases reached : w.stage <;> rw [reached] at h
  case idle => exact Untouched.of_alike h alike
  case started => exact AtItem.of_alike h alike
  case content => exact AtItem.of_alike h alike
  case marked =>
    dsimp only
    rw [alike.octets_eq, alike.settled_eq]
    exact ⟨h.1.of_alike alike, h.2⟩
  case declaring =>
    obtain ⟨base, tail, v, start, reads⟩ := h
    exact ⟨base, tail, v, start.of_alike alike, reads.of_alike alike⟩
  case declared =>
    obtain ⟨base, tail, v, start, reads⟩ := h
    exact ⟨base, tail, v, start.of_alike alike, reads.of_alike alike⟩
  case named =>
    obtain ⟨base, tail, v, start, reads⟩ := h
    exact ⟨base, tail, v, start.of_alike alike, reads.of_alike alike⟩
  case attributes => exact AtAttributes.of_alike h alike
  case value =>
    obtain ⟨front, back, s, h⟩ := h
    exact ⟨front, back, s, h.of_alike alike⟩
  case poisoned => exact h

end Alike

/-! ## Between items -/

theorem Wrote.flushed_eq (h : Wrote w item w') : w'.flushed = w.flushed ++ item.octets := by
  rw [Writer.flushed, h.pending_eq, h.octets_eq]
  exact List.append_nil _

theorem Wrote.octets_of_settled (h : Wrote w item w') (settled : w.pending = .none) :
    w'.octets = w.octets ++ item.octets := by
  rw [h.octets_eq, flushed, settled]
  exact congrArg (· ++ item.octets) (List.append_nil _)

theorem Wrote.readerState_eq (h : Wrote w item w') :
    w'.readerState =
      { vocabulary := (item.enterInto w.tables).vocabulary.settled, depth := w.depth } := by
  rw [readerState, h.tables_eq, h.depth_eq]

theorem Untouched.header (h : Untouched c w t) {header : DocumentHeader}
    (made : Item.ofHeader c w.tables header = .ok item) (wrote : Wrote w item w') :
    AtItem c w'
      (t.append (.startDocument { header with externalVocabulary := c.initialUri? })) where
  arrives := by
    have flushed : w'.flushed = item.octets := by
      rw [wrote.flushed_eq, Writer.flushed, h.octets_eq, h.settled]
      rfl
    rw [flushed, wrote.readerState_eq, h.depth_eq, Transcript.append, h.blank]
    exact arrives_of_header (yields_readHeader made wrote.fresh h.start)
  owed single := by
    rw [wrote.pending_eq] at single
    cases single

theorem AtItem.wrote (h : AtItem c w t) (wrote : Wrote w item w') {e : Event}
    (read : Yields (step c w.readerState) item.octets
      ([e], { vocabulary := (item.enterInto w.tables).vocabulary.settled, depth := w.depth })) :
    AtItem c w' (t.append e) where
  arrives := by
    rw [wrote.flushed_eq, wrote.readerState_eq]
    exact h.arrives.passes (passes_of_yields read nofun)
  owed single := by
    rw [wrote.pending_eq] at single
    cases single

theorem atItem_of_owed {events completed : List Event} {s : Decoder.State}
    (arrives : Arrives c w.octets events s)
    (read : Yields (step c s) w.pending.octets (completed, w.readerState))
    (same : t.events = events ++ completed) : AtItem c w t where
  arrives := by
    rw [same]
    exact arrives.passes (passes_of_yields read nofun)
  owed single := by
    rw [single] at read
    exact ⟨events, completed, s, arrives, read, same⟩

/-- The state of a decoder that was at an item and then reads a terminator. -/
def closedState (w : Writer) : Decoder.State where
  vocabulary := w.tables.vocabulary.settled
  depth := (close w.depth).2.1
  phase := (close w.depth).2.2

/-- One more terminator is owed; the decoder reads it, alone or as half of a double one. -/
theorem AtItem.terminate (h : AtItem c w t) :
    ∃ events completed s, Arrives c w.terminate.octets events s ∧
      Yields (step c s) w.terminate.pending.octets (completed, w.closedState) ∧
      t.events ++ [(close w.depth).1] = events ++ completed := by
  unfold Writer.terminate
  split
  · next none =>
      have arrives := h.arrives
      rw [flushed, none] at arrives
      exact ⟨t.events, _, _, (List.append_nil w.octets) ▸ arrives,
        yields_terminator c w.tables.vocabulary.settled w.depth, rfl⟩
  · next single =>
      obtain ⟨events, completed, s, arrives, read, same⟩ := h.owed single
      refine ⟨events, _, s, arrives, yields_doubleTerminator read, ?_⟩
      rw [same, List.append_assoc]
  · next double =>
      have arrives := h.arrives
      rw [flushed, double] at arrives
      refine ⟨t.events, _, _, ?_,
        yields_terminator c w.tables.vocabulary.settled w.depth, rfl⟩
      have pushed : w.sink.written.toList ++ (w.buffer.push Mark.doubleTerminator).toList =
          w.octets ++ Termination.double.octets := by
        simp [Writer.octets, Termination.octets]
      change Arrives c (w.sink.written.toList ++ (w.buffer.push _).toList) _ _
      rw [pushed]
      exact arrives

/-! ## In the start of an element -/

theorem AtItem.mark (h : AtItem c w t) :
    InStart c { w.settle with mark? := some w.settle.buffer.size } { events := t.events }
      w.settle.octets [] w.tables.vocabulary.settled where
  octets_eq := (List.append_nil _).symm
  marked := by simp [markedAt?, Writer.octets]
  settled := by rw [settle_eq]
  arrives := by
    rw [octets_settle, settle_eq]
    exact h.arrives

section InStart

variable {t' : Transcript} {base tail : Octets} {v : Vocabulary}

theorem InStart.extend (h : InStart c w t base tail v) {more : Octets}
    (octets : w'.octets = w.octets ++ more) (marked : w'.markedAt? = w.markedAt?)
    (settled : w'.pending = .none) (depth : w'.depth = w.depth) (events : t'.events = t.events) :
    InStart c w' t' base (tail ++ more) v where
  octets_eq := by rw [octets, h.octets_eq, List.append_assoc]
  marked := marked.trans h.marked
  settled := settled
  arrives := by
    rw [events, depth]
    exact h.arrives

theorem InStart.wrote (h : InStart c w t base tail v) (wrote : Wrote w item w')
    (events : t'.events = t.events) : InStart c w' t' base (tail ++ item.octets) v :=
  h.extend (wrote.octets_of_settled h.settled) wrote.markedAt_eq wrote.pending_eq wrote.depth_eq
    events

theorem readsDeclarations_start (h : t.declarations = []) :
    ReadsDeclarations c w t [Mark.declarations] w.tables.vocabulary.settled := by
  refine ⟨nofun, ?_⟩
  intro attributed
  rw [h]
  exact passes_of_yields (yields_startDeclarations attributed _ _) nofun

theorem ReadsDeclarations.declare (h : ReadsDeclarations c w t tail v) {d : NamespaceDeclaration}
    (made : Item.ofDeclaration w.tables d.nsPrefix d.namespaceName = .ok item)
    (wrote : Wrote w item w') :
    ReadsDeclarations c w' { t with declarations := t.declarations ++ [d] } (tail ++ item.octets)
      v := by
  refine ⟨by simp [h.1], ?_⟩
  intro attributed
  rw [flagged_append h.1, wrote.readerState_eq, wrote.depth_eq, List.reverse_append]
  exact (h.2 attributed).trans (passes_of_yields
    (yields_declaration made wrote.fresh w.depth attributed t.declarations.reverse) nofun)

theorem named_phase (v : Vocabulary) (depth : Nat) (attributed : Bool) (tag : Tag) :
    (named v depth attributed tag).2.phase ≠ .ended := by
  cases attributed <;> nofun

/-- The element has a name and no declarations. -/
theorem readsName_start (undeclared : t.declarations = []) (blank : t.attributes = [])
    {reference : NameReference} (made : Item.ofName w.tables .element reference = .ok item)
    (wrote : Wrote w item w') :
    ReadsName c w' (t.note c w.tables.vocabulary (.elementName reference)) item.octets
      w.tables.vocabulary.settled := by
  obtain ⟨name, known, read, -⟩ := yields_elementName (c := c) made wrote.fresh
  have tag : (t.note c w.tables.vocabulary (.elementName reference)).tag =
      { name, declarations := [] } := by
    simp [Transcript.note, Transcript.tag, known, undeclared, blank]
  have nonempty := ne_nil_of_yields (read w.depth false)
  rw [flagged_false] at nonempty
  refine ⟨nonempty, ?_⟩
  intro attributed
  rw [tag, wrote.tables_eq, wrote.depth_eq]
  exact passes_of_yields (read w.depth attributed) (named_phase _ _ _ _)

/-- The name follows the declarations. -/
theorem ReadsDeclarations.elementName (h : ReadsDeclarations c w t tail v)
    (blank : t.attributes = []) {reference : NameReference}
    (made : Item.ofName w.tables .element reference = .ok item) (wrote : Wrote w item w') :
    ReadsName c w' (t.note c w.tables.vocabulary (.elementName reference))
      (tail ++ [Mark.terminator] ++ item.octets) v := by
  obtain ⟨name, known, -, read⟩ := yields_elementName (c := c) made wrote.fresh
  have tag : (t.note c w.tables.vocabulary (.elementName reference)).tag =
      { name, declarations := t.declarations } := by
    simp [Transcript.note, Transcript.tag, known, blank]
  refine ⟨by simp [h.1], ?_⟩
  intro attributed
  rw [List.append_assoc, flagged_append h.1, tag, wrote.tables_eq, wrote.depth_eq]
  have next := read w.depth attributed t.declarations.reverse
  rw [List.reverse_reverse] at next
  exact (h.2 attributed).trans (passes_of_yields next (named_phase _ _ _ _))

/-- The attributes of the element are announced. -/
theorem InStart.startAttributes (h : InStart c w t base tail v) (reads : ReadsName c w t tail v) :
    AtAttributes c w.announceAttributes t where
  settled := by
    rw [announceAttributes_eq]
    exact h.settled
  arrives := by
    have same : w.announceAttributes.readerState = w.readerState := by
      rw [announceAttributes_eq]
      rfl
    have next : Arrives c (base ++ flagged true tail) (t.events ++ [])
        { w.readerState with phase := .attributes t.tag } := h.arrives.passes (reads.2 true)
    rw [List.append_nil] at next
    rw [octets_announceAttributes h.octets_eq h.marked, same]
    exact next

end InStart

/-! ## Attributes -/

theorem AtAttributes.attributeName (h : AtAttributes c w t) {reference : NameReference}
    (made : Item.ofName w.tables .attribute reference = .ok item) (wrote : Wrote w item w') :
    AtValue c w' (t.note c w.tables.vocabulary (.attributeName reference)) w.octets item.octets
      { w.readerState with phase := .attributes t.tag } := by
  obtain ⟨name, known, read⟩ :=
    becomes_attributeName (c := c) made wrote.fresh w.depth t.tag
  have named : (t.note c w.tables.vocabulary (.attributeName reference)).attributeName = name := by
    simp [Transcript.note, known]
  refine ⟨wrote.pending_eq, wrote.octets_of_settled h.settled, h.arrives, ?_⟩
  rw [named, wrote.tables_eq, wrote.depth_eq]
  exact read

section AtValue

variable {front back : Octets} {s : Decoder.State} {value received : Content}

theorem AtValue.reads_value (h : AtValue c w t front back s)
    (made : Item.ofValue c w.tables value = .ok item) (wrote : Wrote w item w') :
    w'.octets = front ++ (back ++ item.octets) ∧
      Becomes (step c s) (back ++ item.octets) (do
        let value ← Reading.ofExcept ((value.asValue c).received c)
        let tag :=
          { t.tag with attributes := { name := t.attributeName, value } :: t.tag.attributes }
        return ([], { w'.readerState with phase := .attributes tag })) := by
  refine ⟨?_, ?_⟩
  · rw [wrote.octets_of_settled h.settled, h.octets_eq, List.append_assoc]
  · rw [wrote.readerState_eq]
    exact h.reads.trans (becomes_value made wrote.fresh w.depth t.tag t.attributeName)

theorem AtValue.attributeValue (h : AtValue c w t front back s)
    (made : Item.ofValue c w.tables value = .ok item) (wrote : Wrote w item w')
    (known : (value.asValue c).received c = .ok received) :
    AtAttributes c w' { t with
      attributes := t.attributes ++ [{ name := t.attributeName, value := received }] } := by
  obtain ⟨octets, read⟩ := h.reads_value made wrote
  rw [known] at read
  refine ⟨wrote.pending_eq, ?_⟩
  have next := h.arrives.passes (passes_of_yields read nofun)
  rw [List.append_nil] at next
  rw [octets, Transcript.tag, List.reverse_append]
  exact next

theorem AtValue.fails (h : AtValue c w t front back s)
    (made : Item.ofValue c w.tables value = .ok item) (wrote : Wrote w item w')
    {cause : CodecError} (unknown : (value.asValue c).received c = .error cause) :
    Fails c w'.octets cause := by
  obtain ⟨octets, read⟩ := h.reads_value made wrote
  rw [unknown] at read
  rw [octets]
  exact h.arrives.stops (stops_of_refuses fun rest offset => ⟨_, read rest offset⟩)

end AtValue

/-! ## Ends of elements -/

theorem event_tag (t : Transcript) :
    t.tag.event = .startElement t.name t.declarations t.attributes := by
  rw [Tag.event, Transcript.tag, List.reverse_reverse]

theorem AtAttributes.endStartElement (h : AtAttributes c w t) :
    AtItem c { w.terminate with mark? := none, depth := w.terminate.depth + 1 }
      { events := t.events ++ [.startElement t.name t.declarations t.attributes] } := by
  have owes : w.terminate = { w with pending := .single } := by
    rw [terminate, h.settled]
  rw [owes]
  refine atItem_of_owed h.arrives (yields_endAttributes _ _ _ _) ?_
  rw [event_tag]

theorem InStart.endStartElement {base tail : Octets} {v : Vocabulary}
    (h : InStart c w t base tail v) (reads : ReadsName c w t tail v) :
    AtItem c { w with mark? := none, depth := w.depth + 1 }
      { events := t.events ++ [.startElement t.name t.declarations t.attributes] } where
  arrives := by
    have next : Arrives c (base ++ flagged false tail) (t.events ++ [t.tag.event])
        { w.readerState with depth := w.depth + 1 } := h.arrives.passes (reads.2 false)
    have flushed : w.flushed = base ++ tail := by
      rw [Writer.flushed, h.octets_eq, h.settled]
      exact List.append_nil _
    rw [flagged_false, ← flushed, event_tag] at next
    exact next
  owed single := by
    have : w.pending = .single := single
    rw [h.settled] at this
    cases this

theorem AtItem.endElement (h : AtItem c w t) (inside : 0 < w.depth) :
    AtItem c { w.terminate with depth := w.depth - 1 } (t.append .endElement) := by
  obtain ⟨depth, hdepth⟩ : ∃ depth, w.depth = depth + 1 := ⟨w.depth - 1, by omega⟩
  obtain ⟨events, completed, s, arrives, read, same⟩ := h.terminate
  have kept : w.terminate.tables = w.tables := by rw [terminate_eq]
  have closed : w.closedState =
      ({ w.terminate with depth := w.depth - 1 } : Writer).readerState := by
    rw [closedState, readerState, kept, hdepth]
    rfl
  rw [closed] at read
  rw [hdepth] at same
  exact atItem_of_owed arrives read same

/-! ## Characters -/

theorem AtItem.characters (h : AtItem c w t) (inside : 0 < w.depth) {content received : Content}
    (made : Item.ofCharacters? c w.tables content = .ok (some item)) (wrote : Wrote w item w')
    (known : content.received c = .ok received) :
    AtItem c w' (t.append (.characters received)) := by
  have read := becomes_characters made wrote.fresh inside
  rw [known] at read
  exact h.wrote wrote read

theorem AtItem.fails (h : AtItem c w t) (inside : 0 < w.depth) {content : Content}
    (made : Item.ofCharacters? c w.tables content = .ok (some item)) (wrote : Wrote w item w')
    {cause : CodecError} (unknown : content.received c = .error cause) :
    Fails c w'.octets cause := by
  have read := becomes_characters made wrote.fresh inside
  rw [unknown] at read
  rw [wrote.octets_eq]
  exact h.arrives.stops (stops_of_refuses fun rest offset => ⟨_, read rest offset⟩)

end Writer

end BinaryXml
