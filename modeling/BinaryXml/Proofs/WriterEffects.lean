import BinaryXml.Writer
import BinaryXml.Proofs.ElementRoundTrip
import BinaryXml.Proofs.Sequencing

/-!
# Effects of calls

What a call of a writer changes, with the buffer and the sink seen as one list of octets. A call
that succeeds appends octets and makes entries; one that fails leaves the writer as it was or
unusable.
-/

namespace BinaryXml

namespace Termination

/-- The octets that a writer owes. -/
def octets : Termination → Octets
  | none => []
  | single => [Mark.terminator]
  | double => [Mark.doubleTerminator]

end Termination

namespace Writer

/-- All octets written, whether they were handed over yet or not. -/
def octets (w : Writer) : Octets := w.sink.written.toList ++ w.buffer.toList

/-- The octets written, with the pending terminators behind them. -/
def flushed (w : Writer) : Octets := w.octets ++ w.pending.octets

/-- Where the element begins whose start is being written, among all octets. -/
def markedAt? (w : Writer) : Option Nat := w.mark?.map (w.sink.written.size + ·)

/-- The writers differ at most in how far the octets were handed over. -/
structure Agrees (w w' : Writer) : Prop where
  octets_eq : w'.octets = w.octets
  tables_eq : w'.tables = w.tables
  depth_eq : w'.depth = w.depth
  pending_eq : w'.pending = w.pending
  mark_eq : w'.mark? = w.mark?
  markedAt_eq : w'.markedAt? = w.markedAt?

/-- The writer `w'` has written an item behind the octets of `w`. -/
structure Wrote (w : Writer) (item : Item) (w' : Writer) : Prop where
  fresh : item.IsFresh w.tables
  octets_eq : w'.octets = w.flushed ++ item.octets
  tables_eq : w'.tables = item.enterInto w.tables
  depth_eq : w'.depth = w.depth
  pending_eq : w'.pending = .none
  mark_eq : w'.mark? = w.mark?
  markedAt_eq : w'.markedAt? = w.markedAt?

section Effects

variable {w w' : Writer} {cause : CodecError}

/-! ## The buffer -/

@[simp] theorem octets_put (w : Writer) (octets : Octets) :
    (w.put octets).octets = w.octets ++ octets := by
  simp [Writer.octets, put]

@[simp] theorem octets_settle (w : Writer) : w.settle.octets = w.flushed := by
  unfold settle flushed Writer.octets
  cases w.pending <;> simp [Termination.octets]

theorem settle_eq (w : Writer) :
    w.settle = { w with buffer := w.settle.buffer, pending := .none } := by
  unfold settle
  split
  · next h => rw [← h]
  · rfl
  · rfl

theorem terminate_eq (w : Writer) :
    w.terminate = { w with buffer := w.terminate.buffer, pending := w.terminate.pending } := by
  unfold terminate
  split <;> rfl

theorem announceAttributes_eq (w : Writer) :
    w.announceAttributes = { w with buffer := w.announceAttributes.buffer } := by
  unfold announceAttributes
  split <;> rfl

theorem octets_terminate_prefix (w : Writer) : w.octets <+: w.terminate.octets := by
  unfold terminate
  split
  · exact List.prefix_rfl
  · exact List.prefix_rfl
  · exact ⟨[Mark.doubleTerminator], by simp [Writer.octets]⟩

/-- A long buffer that is handed over leaves what was written as it was. -/
theorem agrees_of_handOver (h : handOver w = .ok () w') : Agrees w w' := by
  unfold handOver at h
  split at h
  · cases h
    exact ⟨rfl, rfl, rfl, rfl, rfl, rfl⟩
  · next long =>
      split at h
      · next sink taken =>
          cases h
          have unmarked : w.mark? = none := by
            simp only [Bool.or_eq_true, not_or, Option.isSome_iff_ne_none, ne_eq,
              Decidable.not_not] at long
            exact long.1
          have written : sink.written = w.sink.written ++ w.buffer := by
            unfold Sink.write at taken
            split at taken <;> cases taken
            rfl
          exact ⟨by simp [Writer.octets, written], rfl, rfl, rfl, rfl,
            by simp [markedAt?, unmarked]⟩
      · cases h

theorem poisoned_of_handOver (h : handOver w = .error cause w') : w'.stage = .poisoned := by
  unfold handOver at h
  split at h
  · cases h
  · split at h <;> cases h
    rfl

theorem modify_append_length (f : UInt8 → UInt8) (front back : Octets) :
    (front ++ back).modify front.length f = front ++ back.modifyHead f :=
  List.modifyTailIdx_add (List.modifyHead f) 0 front back

/-- The first octet behind the mark is changed in place. -/
theorem octets_announceAttributes {base tail : Octets} (split : w.octets = base ++ tail)
    (marked : w.markedAt? = some base.length) :
    w.announceAttributes.octets = base ++ Decoder.flagged true tail := by
  obtain ⟨mark, hmark, place⟩ := Option.map_eq_some_iff.1 marked
  have inBuffer : ∃ front, base = w.sink.written.toList ++ front ∧
      w.buffer.toList = front ++ tail ∧ front.length = mark := by
    rcases List.append_eq_append_iff.1 split with ⟨front, hbase, hbuffer⟩ | ⟨more, hwritten, htail⟩
    · refine ⟨front, hbase, hbuffer, ?_⟩
      rw [hbase, List.length_append, Array.length_toList] at place
      omega
    · have size : w.sink.written.size = base.length + more.length := by
        rw [← Array.length_toList, hwritten, List.length_append]
      have none : more = [] := List.eq_nil_of_length_eq_zero (by omega)
      subst none
      refine ⟨[], ?_, htail.symm, ?_⟩
      · rw [hwritten, List.append_nil, List.append_nil]
      · rw [List.length_nil]
        omega
  obtain ⟨front, hbase, hbuffer, rfl⟩ := inBuffer
  unfold announceAttributes Writer.octets
  rw [hmark, hbase, List.append_assoc]
  dsimp only
  rw [Array.toList_modify, hbuffer, modify_append_length]
  cases tail <;> rfl

/-! ## Items -/

theorem enter_eq_ok {entries : List Entry} (h : enter entries w = .ok () w') :
    entries.findSome? w.tables.conflict? = none ∧
      w' = { w with tables := entries.foldl .enter w.tables } := by
  unfold enter at h
  split at h
  · cases h
  · next fresh =>
      cases h
      exact ⟨fresh, rfl⟩

theorem poisoned_of_enter {entries : List Entry} (h : enter entries w = .error cause w') :
    w'.stage = .poisoned := by
  unfold enter at h
  split at h <;> cases h
  rfl

/-- An item is put behind the pending terminators, before the buffer is handed over. -/
theorem write_eq (item : Item) (w : Writer) :
    write item w = (handOver >>= fun _ => enter item.entries) (w.settle.put item.octets) := rfl

theorem wrote_of_write {item : Item} (h : write item w = .ok () w') : Wrote w item w' := by
  rw [write_eq] at h
  obtain ⟨_, u, handed, entered⟩ := bind_eq_ok h
  have agrees := agrees_of_handOver handed
  obtain ⟨fresh, rfl⟩ := enter_eq_ok entered
  have octets := agrees.octets_eq
  rw [octets_put, octets_settle] at octets
  rw [settle_eq] at agrees
  rw [agrees.tables_eq] at fresh ⊢
  exact ⟨fresh, octets, rfl, agrees.depth_eq, agrees.pending_eq, agrees.mark_eq,
    agrees.markedAt_eq⟩

theorem Wrote.octets_append {item : Item} (h : Wrote w item w') :
    w'.octets = w.octets ++ (w.pending.octets ++ item.octets) := by
  rw [h.octets_eq, flushed, List.append_assoc]

theorem poisoned_of_write {item : Item} (h : write item w = .error cause w') :
    w'.stage = .poisoned := by
  rw [write_eq] at h
  rcases bind_eq_error h with refused | ⟨_, u, -, conflict⟩
  · exact poisoned_of_handOver refused
  · exact poisoned_of_enter conflict

theorem wrote_of_writeNew {make : Writer → Except CodecError Item}
    (h : writeNew make w = .ok () w') : ∃ item, make w = .ok item ∧ Wrote w item w' := by
  unfold writeNew at h
  split at h
  · next item made => exact ⟨item, made, wrote_of_write h⟩
  · cases h

theorem unchanged_of_writeNew {make : Writer → Except CodecError Item}
    (h : writeNew make w = .error cause w') : w' = w ∨ w'.stage = .poisoned := by
  unfold writeNew at h
  split at h
  · exact .inr (poisoned_of_write h)
  · cases h
    exact .inl rfl

theorem Agrees.moveTo (h : Agrees w w') (stage : Stage) : Agrees w { w' with stage } :=
  ⟨h.octets_eq, h.tables_eq, h.depth_eq, h.pending_eq, h.mark_eq, h.markedAt_eq⟩

theorem Wrote.moveTo {item : Item} (h : Wrote w item w') (stage : Stage) :
    Wrote w item { w' with stage } :=
  ⟨h.fresh, h.octets_eq, h.tables_eq, h.depth_eq, h.pending_eq, h.mark_eq, h.markedAt_eq⟩

end Effects

/-! ## Calls -/

section Calls

variable {c : Codec} {call : Call} {w w' : Writer} {cause : CodecError} {reply : Reply}

theorem perform_eq_ok (h : perform c call w = .ok reply w') :
    call.isAllowed w.stage w.depth = true ∧
      ∃ u, carryOut c call w = .ok () u ∧ w' = { u with stage := call.stageAfter } := by
  unfold perform at h
  split at h
  · cases h
  · split at h
    · next allowed =>
        refine ⟨allowed, ?_⟩
        obtain ⟨_, u, done, moved⟩ := bind_eq_ok h
        cases moved
        exact ⟨u, done, rfl⟩
    · cases h

theorem perform_of_poisoned (poisoned : w.stage = .poisoned) :
    perform c call w = .error (.protocol .poisoned) w :=
  if_pos poisoned

theorem perform_of_carryOut (active : w.stage ≠ .poisoned)
    (allowed : call.isAllowed w.stage w.depth = true) (h : carryOut c call w = .ok () w') :
    perform c call w = .ok (w.reply call) { w' with stage := call.stageAfter } := by
  unfold perform
  rw [if_neg active, if_pos allowed]
  exact bind_of_ok h

/-- A name with an index is written like the index. -/
theorem ofName_named {t : Tables} {kind : NameKind} {name : QualifiedName} {i : Nat}
    (indexed : (t.vocabulary.names kind).wireIndex? name = some i)
    (known : (t.vocabulary.names kind).get i = .ok name) :
    Item.ofName t kind (.named name) = Item.ofName t kind (.indexed i) := by
  simp only [Item.ofName, indexed, known]

theorem carryOut_named {name : QualifiedName} {i : Nat}
    (indexed : w.tables.vocabulary.elementNames.wireIndex? name = some i)
    (known : w.tables.vocabulary.elementNames.get i = .ok name) :
    carryOut c (.elementName (.named name)) w = carryOut c (.elementName (.indexed i)) w := by
  have item : Item.ofName w.tables .element (.named name) =
      Item.ofName w.tables .element (.indexed i) :=
    ofName_named indexed known
  simp only [carryOut, writeNew, item]

theorem carryOut_namedAttribute {name : QualifiedName} {i : Nat}
    (indexed : w.tables.vocabulary.attributeNames.wireIndex? name = some i)
    (known : w.tables.vocabulary.attributeNames.get i = .ok name) :
    carryOut c (.attributeName (.named name)) w = carryOut c (.attributeName (.indexed i)) w := by
  have item : Item.ofName w.tables .attribute (.named name) =
      Item.ofName w.tables .attribute (.indexed i) :=
    ofName_named indexed known
  simp only [carryOut, writeNew, item]

/-- What a call adds to the octets stands behind them, but for the announcement of attributes. -/
theorem octets_prefix_of_carryOut (h : carryOut c call w = .ok () w')
    (other : call ≠ .startAttributes) : w.octets <+: w'.octets := by
  unfold carryOut at h
  cases call with
  | startDocument | declare | elementName | attributeName | attributeValue | comment
  | instruction =>
      obtain ⟨item, -, wrote⟩ := wrote_of_writeNew h
      exact ⟨_, wrote.octets_append.symm⟩
  | initiate =>
      cases h
      exact List.prefix_rfl
  | mark =>
      cases h
      have settled : w.settle.octets = w.octets ++ w.pending.octets := octets_settle w
      exact ⟨_, settled.symm⟩
  | startDeclarations | endDeclarations =>
      cases h
      exact ⟨_, (octets_put w _).symm⟩
  | startAttributes => exact absurd rfl other
  | endStartElement =>
      rw [(agrees_of_handOver h).octets_eq]
      change w.octets <+: (if w.stage = .attributes then w.terminate else w).octets
      split
      · exact w.octets_terminate_prefix
      · exact List.prefix_rfl
  | characters content =>
      dsimp only at h
      split at h
      · exact ⟨_, (wrote_of_write h).octets_append.symm⟩
      · cases h
        exact List.prefix_rfl
      · cases h
  | endElement =>
      rw [(agrees_of_handOver h).octets_eq]
      exact w.octets_terminate_prefix

theorem unchanged_of_carryOut (h : carryOut c call w = .error cause w') :
    w' = w ∨ w'.stage = .poisoned := by
  cases call with
  | startDocument | declare | elementName | attributeName | attributeValue | comment
  | instruction =>
      unfold carryOut at h
      exact unchanged_of_writeNew h
  | initiate | mark | startDeclarations | endDeclarations | startAttributes => cases h
  | endStartElement | endElement => exact .inr (poisoned_of_handOver h)
  | characters content =>
      unfold carryOut at h
      dsimp only at h
      split at h
      · exact .inr (poisoned_of_write h)
      · cases h
      · cases h
        exact .inl rfl

/-- A call that fails without making the writer unusable has done nothing. -/
theorem unchanged_of_perform (h : perform c call w = .error cause w') :
    w' = w ∨ w'.stage = .poisoned := by
  unfold perform at h
  split at h
  · cases h
    exact .inl rfl
  · split at h
    · rcases bind_eq_error h with failed | ⟨_, _, -, moved⟩
      · exact unchanged_of_carryOut failed
      · cases moved
    · cases h
      exact .inr rfl

end Calls

end Writer

end BinaryXml
