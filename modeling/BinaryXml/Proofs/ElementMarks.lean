import BinaryXml.Proofs.WrittenOctets

/-!
# The mark of an element

Whether an element has attributes is told by its first octet, which is written before that is
known. A writer marks the place, and from there to the end of the start it neither holds back a
terminator nor hands its buffer over. So the octet is still in the buffer, behind the mark, when
the attributes are announced; no other octet that was written is ever changed.
-/

namespace BinaryXml

namespace Stage

/-- The stages behind the announcement of attributes. -/
def isAttributed : Stage → Bool
  | attributes => true
  | value => true
  | _ => false

/-- The stages from the mark of an element to the end of its start. -/
def isInTag (s : Stage) : Bool := s.isInStart || s.isAttributed

end Stage

/-- The first octet that a call in turn gives to the element whose start is being written. -/
def Call.firstOctet? (t : Tables) : Call → Option UInt8
  | startDeclarations => some Mark.declarations
  | elementName name => (Item.ofName t .element name).toOption.bind (·.octets.head?)
  | _ => none

namespace Writer

/-- What the mark stands for, where `first?` is the first octet that the element was given. -/
structure Marks (w : Writer) (first? : Option UInt8) : Prop where
  isSome_eq : w.mark?.isSome = w.stage.isInTag
  settled : ∀ mark, w.mark? = some mark → w.pending = .none
  /-- An element that has no octets yet begins at the end of the buffer. -/
  place : ∀ mark, w.mark? = some mark → w.stage = .marked → w.buffer.size = mark ∧ first? = none
  /-- Only the announcement of attributes is added to the first octet. -/
  octet : ∀ mark, w.mark? = some mark → w.stage ≠ .marked → ∃ first, first? = some first ∧
    first.toNat < 0x40 ∧
    w.buffer[mark]? = some (first ||| flagBit w.stage.isAttributed Mark.attributes)

section Steps

variable {c : Codec} {call : Call} {w w' : Writer} {item : Item} {cause : CodecError}
  {reply : Reply} {first? : Option UInt8} {octets : Octets} {mark : Nat}

/-! ## What calls do to the mark -/

/-- Outside of the start of an element there is no mark. -/
theorem marks_of_unmarked (unmarked : w.mark? = none) (outside : w.stage.isInTag = false) :
    Marks w first? where
  isSome_eq := by rw [unmarked, outside]; rfl
  settled mark marked := by cases unmarked.symm.trans marked
  place mark marked := by cases unmarked.symm.trans marked
  octet mark marked := by cases unmarked.symm.trans marked

theorem Marks.unmarked (h : Marks w first?) (outside : w.stage.isInTag = false) :
    w.mark? = none := by
  have isSome := h.isSome_eq
  rw [outside] at isSome
  exact Option.not_isSome_iff_eq_none.1 (by rw [isSome]; nofun)

theorem Marks.marked (h : Marks w first?) (inside : w.stage.isInTag = true) :
    ∃ mark, w.mark? = some mark :=
  Option.isSome_iff_exists.1 (h.isSome_eq.trans inside)

theorem Marks.isSome (h : Marks w first?) (inside : w.stage.isInTag = true) :
    w.mark?.isSome = true ∧ w.pending = .none := by
  obtain ⟨mark, marked⟩ := h.marked inside
  exact ⟨by rw [marked]; rfl, h.settled mark marked⟩

theorem getElem?_appendList (buffer : Array UInt8) (octets : Octets) (i : Nat) :
    (buffer ++ octets)[i]? = (buffer.toList ++ octets)[i]? := by
  rw [← Array.getElem?_toList, Array.toList_appendList]

/-- Octets behind the first one do not touch it. -/
theorem Marks.append (h : Marks w first?) (inside : w.stage.isInTag = true)
    (begun : w.stage ≠ .marked) (stage : Stage) (later : stage ≠ .marked)
    (kept : stage.isInTag = true) (attributed : stage.isAttributed = w.stage.isAttributed)
    (tables : Tables) :
    Marks { w with buffer := w.buffer ++ octets, tables, stage } first? where
  isSome_eq := h.isSome_eq.trans (inside.trans kept.symm)
  settled := h.settled
  place mark marked atMark := absurd atMark later
  octet mark marked _ := by
    obtain ⟨first, known, low, found⟩ := h.octet mark marked begun
    refine ⟨first, known, low, ?_⟩
    change (w.buffer ++ octets)[mark]? = some (first ||| flagBit stage.isAttributed Mark.attributes)
    have inside : mark < w.buffer.toList.length := (Array.getElem?_eq_some_iff.1 found).1
    rw [attributed, ← found, getElem?_appendList, List.getElem?_append_left inside,
      Array.getElem?_toList]

/-- The first octets of an element go where the mark is. -/
theorem Marks.begin (h : Marks w first?) (atMark : w.stage = .marked) {first : UInt8}
    {tail : Octets} (split : octets = first :: tail) (low : first.toNat < 0x40) (stage : Stage)
    (later : stage ≠ .marked) (kept : stage.isInTag = true)
    (unattributed : stage.isAttributed = false) (tables : Tables) :
    Marks { w with buffer := w.buffer ++ octets, tables, stage } (first?.or (some first)) where
  isSome_eq := by
    have isSome := h.isSome_eq
    rw [atMark] at isSome
    exact isSome.trans kept.symm
  settled := h.settled
  place mark marked again := absurd again later
  octet mark marked _ := by
    obtain ⟨size, unknown⟩ := h.place mark marked atMark
    refine ⟨first, by rw [unknown]; rfl, low, ?_⟩
    change (w.buffer ++ octets)[mark]? = some (first ||| flagBit stage.isAttributed Mark.attributes)
    rw [unattributed, ← size, split, getElem?_appendList]
    simp [flagBit]

theorem modify_eq_set {buffer : Array UInt8} {first : UInt8} (found : buffer[mark]? = some first)
    (f : UInt8 → UInt8) : buffer.modify mark f = buffer.setIfInBounds mark (f first) := by
  apply Array.ext_getElem?
  intro i
  rw [Array.getElem?_modify, Array.getElem?_setIfInBounds]
  split
  · next same =>
      subst same
      rw [found, Option.map_some, if_pos (Array.getElem?_eq_some_iff.1 found).1]
  · rfl

/-- The announcement of attributes finds the first octet, and sets one bit of it that was clear. -/
theorem Marks.announced (h : Marks w first?) (named : w.stage = .named) :
    ∃ mark first, w.mark? = some mark ∧ first? = some first ∧ first.toNat < 0x40 ∧
      w.buffer[mark]? = some first ∧
      w.announceAttributes =
        { w with buffer := w.buffer.setIfInBounds mark (first ||| Mark.attributes) } := by
  obtain ⟨mark, marked⟩ := h.marked (by rw [named]; rfl)
  obtain ⟨first, known, low, found⟩ := h.octet mark marked (by rw [named]; nofun)
  have plain : w.buffer[mark]? = some first := by
    rw [found, named]
    simp [Stage.isAttributed, flagBit]
  refine ⟨mark, first, marked, known, low, plain, ?_⟩
  rw [announceAttributes, marked]
  dsimp only
  rw [modify_eq_set plain]

theorem Marks.perform_startAttributes (h : Marks w first?) (named : w.stage = .named) :
    ∃ mark first, w.mark? = some mark ∧ first? = some first ∧ w.buffer[mark]? = some first ∧
      first &&& Mark.attributes = 0 ∧
      perform c .startAttributes w = .ok .done
        { w with
          buffer := w.buffer.setIfInBounds mark (first ||| Mark.attributes)
          stage := .attributes } := by
  obtain ⟨mark, first, marked, known, low, found, announced⟩ := h.announced named
  have clear : first &&& Mark.attributes = 0 := by
    have := (by decide : ∀ n < 64, UInt8.ofNat n &&& Mark.attributes = 0) first.toNat low
    rwa [UInt8.ofNat_toNat] at this
  have done : carryOut c .startAttributes w = .ok () w.announceAttributes := rfl
  refine ⟨mark, first, marked, known, found, clear, ?_⟩
  rw [perform_of_carryOut (by rw [named]; nofun) (by rw [named]; rfl) done, announced]
  rfl

theorem Marks.startAttributes (h : Marks w first?) (named : w.stage = .named) :
    Marks { w.announceAttributes with stage := .attributes } first? := by
  obtain ⟨mark, first, marked, known, low, found, announced⟩ := h.announced named
  rw [announced]
  refine ⟨by rw [marked]; rfl, h.settled, fun _ _ => nofun, ?_⟩
  intro mark' marked' _
  cases marked.symm.trans marked'
  refine ⟨first, known, low, ?_⟩
  exact Array.getElem?_setIfInBounds_self_of_lt (Array.getElem?_eq_some_iff.1 found).1

/-- The start of an element is marked where the buffer ends. -/
theorem marks_mark (w : Writer) :
    Marks { w.settle with mark? := some w.settle.buffer.size, stage := .marked } none where
  isSome_eq := rfl
  settled _ _ := by rw [settle_eq]
  place mark marked _ := by
    cases marked
    exact ⟨rfl, rfl⟩
  octet _ _ begun := absurd rfl begun

theorem Marks.eq_of_writeNew (h : Marks w first?) (inside : w.stage.isInTag = true)
    {make : Writer → Except CodecError Item} (done : writeNew make w = .ok () w') :
    ∃ item, make w = .ok item ∧
      w' = { w with buffer := w.buffer ++ item.octets, tables := item.enterInto w.tables } := by
  obtain ⟨isSome, settled⟩ := h.isSome inside
  obtain ⟨item, made, wrote⟩ := wrote_of_writeNew done
  have written := write_of_marked isSome settled wrote.fresh
  rw [writeNew, made] at done
  dsimp only at done
  cases done.symm.trans written
  exact ⟨item, made, rfl⟩

/-- Behind the first octet a call adds others. -/
theorem Marks.wrote (h : Marks w first?) (inside : w.stage.isInTag = true)
    (begun : w.stage ≠ .marked) {make : Writer → Except CodecError Item}
    (done : writeNew make w = .ok () w') {stage : Stage} (later : stage ≠ .marked)
    (kept : stage.isInTag = true) (attributed : stage.isAttributed = w.stage.isAttributed) :
    Marks { w' with stage } first? := by
  obtain ⟨item, -, rfl⟩ := h.eq_of_writeNew inside done
  exact h.append inside begun stage later kept attributed _

theorem Marks.elementName (h : Marks w first?) {reference : NameReference}
    (turn : w.stage = .marked ∨ w.stage = .declared)
    (done : writeNew (fun w => Item.ofName w.tables .element reference) w = .ok () w') :
    Marks { w' with stage := .named }
      (first?.or ((Call.elementName reference).firstOctet? w.tables)) := by
  rcases turn with atMark | declared
  · obtain ⟨item, made, rfl⟩ := h.eq_of_writeNew (by rw [atMark]; rfl) done
    obtain ⟨name, first, tail, -, split, low, -⟩ :=
      Decoder.yields_readName made (Item.isFresh_ofName made)
    have given : (Call.elementName reference).firstOctet? w.tables = some first := by
      rw [Call.firstOctet?, made]
      exact congrArg List.head? split
    rw [given]
    exact h.begin atMark split low .named nofun rfl rfl _
  · have inside : w.stage.isInTag = true := by rw [declared]; rfl
    have begun : w.stage ≠ .marked := by rw [declared]; nofun
    obtain ⟨mark, marked⟩ := h.marked inside
    obtain ⟨first, known, -⟩ := h.octet mark marked begun
    have kept : first?.or ((Call.elementName reference).firstOctet? w.tables) = first? := by
      rw [known]
      rfl
    rw [kept]
    exact h.wrote inside begun done nofun rfl (by rw [declared]; rfl)

/-- A call that succeeds keeps the mark in the right place. -/
theorem Marks.perform (h : Marks w first?) (ok : perform c call w = .ok reply w') :
    Marks w' (if call = .mark then none else first?.or (call.firstOctet? w.tables)) := by
  obtain ⟨allowed, u, done, rfl⟩ := perform_eq_ok ok
  -- Calls between items find no mark and leave none.
  have between {stage : Stage} {first? : Option UInt8} (outside : w.stage.isInTag = false)
      (kept : u.mark? = w.mark?) (later : stage.isInTag = false) : Marks { u with stage } first? :=
    marks_of_unmarked (kept.trans (h.unmarked outside)) later
  have silent {call : Call} (other : call ≠ .mark) (none : call.firstOctet? w.tables = none) :
      (if call = .mark then Option.none else first?.or (call.firstOctet? w.tables)) = first? := by
    rw [if_neg other, none, Option.or_none]
  cases call with
  | startDocument | comment | instruction =>
      have outside : w.stage.isInTag = false := by
        have : w.stage = .idle ∨ w.stage = .content := by simp_all [Call.isAllowed]
        rcases this with stage | stage <;> rw [stage] <;> rfl
      unfold carryOut at done
      obtain ⟨item, -, wrote⟩ := wrote_of_writeNew done
      exact between outside wrote.mark_eq rfl
  | initiate =>
      have stage : w.stage = .started := by simpa [Call.isAllowed] using allowed
      cases done
      exact between (by rw [stage]; rfl) rfl rfl
  | mark =>
      cases done
      rw [if_pos rfl]
      exact marks_mark w
  | startDeclarations =>
      have stage : w.stage = .marked := by simpa [Call.isAllowed] using allowed
      cases done
      have first : [Mark.declarations] = Mark.declarations :: [] := rfl
      exact h.begin stage first (by decide) .declaring (by simp) rfl rfl _
  | declare | attributeName | attributeValue =>
      have turn : w.stage = .declaring ∨ w.stage = .attributes ∨ w.stage = .value := by
        simp_all [Call.isAllowed]
      have inside : w.stage.isInTag = true := by
        rcases turn with stage | stage | stage <;> rw [stage] <;> rfl
      have begun : w.stage ≠ .marked := by
        rcases turn with stage | stage | stage <;> simp [stage]
      rw [silent (by simp) rfl]
      unfold carryOut at done
      refine h.wrote inside begun done (by simp [Call.stageAfter]) rfl ?_
      simp_all [Call.isAllowed, Call.stageAfter, Stage.isAttributed]
  | endDeclarations =>
      have stage : w.stage = .declaring := by simpa [Call.isAllowed] using allowed
      cases done
      rw [silent (by simp) rfl]
      exact h.append (by rw [stage]; rfl) (by simp [stage]) .declared (by simp) rfl
        (by rw [stage]; rfl) _
  | elementName reference =>
      have turn : w.stage = .marked ∨ w.stage = .declared := by
        simpa [Call.isAllowed] using allowed
      unfold carryOut at done
      exact h.elementName turn done
  | startAttributes =>
      have stage : w.stage = .named := by simpa [Call.isAllowed] using allowed
      cases done
      rw [silent (by simp) rfl]
      exact h.startAttributes stage
  | endStartElement =>
      have agrees := agrees_of_handOver done
      exact marks_of_unmarked agrees.mark_eq rfl
  | characters content =>
      have turn : w.stage = .content ∧ 0 < w.depth := by simpa [Call.isAllowed] using allowed
      have outside : w.stage.isInTag = false := by rw [turn.1]; rfl
      unfold carryOut at done
      dsimp only at done
      split at done
      · exact between outside (wrote_of_write done).mark_eq rfl
      · cases done
        exact between outside rfl rfl
      · cases done
  | endElement =>
      have turn : w.stage = .content ∧ 0 < w.depth := by simpa [Call.isAllowed] using allowed
      have agrees := agrees_of_handOver done
      refine between (by rw [turn.1]; rfl) (agrees.mark_eq.trans ?_) rfl
      dsimp only
      rw [terminate_eq]

end Steps

end Writer

/-! ## Sessions -/

namespace Session

/-- The first octet of the element that was marked last, as far as it was given one. -/
def identifiedBy (c : Codec) (s : Session) (first? : Option UInt8) : Action → Option UInt8
  | .call call =>
    match Writer.perform c call s.writer with
    | .ok _ _ => if call = .mark then none else first?.or (call.firstOctet? s.writer.tables)
    | .error _ _ => first?
  | .reserveName _ => first?
  | .reserveLocalName => first?

/-- The first octet of the element that is marked at the end of the actions. -/
def identification? (c : Codec) : Session → Option UInt8 → List Action → Option UInt8
  | _, first?, [] => first?
  | s, first?, action :: rest =>
    identification? c (s.act c action) (s.identifiedBy c first? action) rest

variable {c : Codec} {s : Session} {first? : Option UInt8}

theorem marks_act (h : s.writer.stage = .poisoned ∨ s.writer.Marks first?) (action : Action) :
    (s.act c action).writer.stage = .poisoned ∨
      (s.act c action).writer.Marks (s.identifiedBy c first? action) := by
  rcases h with poisoned | marks
  · exact .inl (poisoned_act poisoned action)
  · cases action with
    | call call =>
        unfold act identifiedBy
        dsimp only
        cases performed : Writer.perform c call s.writer with
        | ok reply w => exact .inr (marks.perform performed)
        | error cause w =>
            rcases Writer.unchanged_of_perform performed with rfl | poisoned
            · exact .inr marks
            · exact .inl poisoned
    | reserveName kind => exact .inr ⟨marks.isSome_eq, marks.settled, marks.place, marks.octet⟩
    | reserveLocalName => exact .inr ⟨marks.isSome_eq, marks.settled, marks.place, marks.octet⟩

theorem marks_run (h : s.writer.stage = .poisoned ∨ s.writer.Marks first?)
    (actions : List Action) :
    (s.run c actions).writer.stage = .poisoned ∨
      (s.run c actions).writer.Marks (s.identification? c first? actions) := by
  induction actions generalizing s first? with
  | nil => exact h
  | cons action actions ih => exact ih (marks_act h action)

theorem marks_session (c : Codec) (sink : Sink) (actions : List Action)
    (active : ((c.session sink).run c actions).writer.stage ≠ .poisoned) :
    ((c.session sink).run c actions).writer.Marks
      ((c.session sink).identification? c none actions) :=
  (marks_run (.inr (Writer.marks_of_unmarked rfl rfl)) actions).resolve_left active

/-- At every point of a session the mark is set from the mark of an element to the end of its
start. In between no terminator is held back, nothing goes to the sink, and the first octet of the
element, once it is written, is behind the mark. The announcement of attributes finds it there and
sets one bit of it. Nothing else is done to octets that were written, except that a sink may refuse
the buffer as a whole. -/
theorem marks_of_run (c : Codec) (sink : Sink) (actions : List Action) :
    let w := ((c.session sink).run c actions).writer
    let first? := (c.session sink).identification? c none actions
    w.stage ≠ .poisoned →
      w.Marks first? ∧
      (w.stage = .named → ∃ mark first, w.mark? = some mark ∧ first? = some first ∧
        w.buffer[mark]? = some first ∧ first &&& Mark.attributes = 0 ∧
        Writer.perform c .startAttributes w = .ok .done
          { w with
            buffer := w.buffer.setIfInBounds mark (first ||| Mark.attributes)
            stage := .attributes }) ∧
      ∀ request : Request,
        let w' := Writer.after (request.make c) w
        (w.mark?.isSome = true → request ≠ .call .endStartElement → w'.sink = w.sink) ∧
        ((w.stage = .named → request ≠ .call .startAttributes) →
          w.octets <+: w'.octets ∨
            ∃ reason, request.make c w = .error (.sink reason) w' ∧ w'.sink = w.sink ∧
              w'.buffer = #[]) := by
  intro w first? active
  have marks : w.Marks first? := marks_session c sink actions active
  refine ⟨marks, marks.perform_startAttributes, ?_⟩
  intro request w'
  refine ⟨?_, ?_⟩
  · intro marked other
    cases request with
    | call asked =>
        rw [show w' = _ from Request.after_make_call asked]
        exact Writer.sink_after_perform marked fun same => other (congrArg Request.call same)
    | endDocument =>
        refine Writer.sink_after_endDocument fun between => ?_
        rw [marks.isSome_eq, between] at marked
        cases marked
  · intro unannounced
    exact Request.octets_after_make unannounced

/-- The start of an element with declarations, of which one call fails. -/
def declaredActions : List Action :=
  [.call (.startDocument {}), .call .initiate, .call .mark, .call .startDeclarations,
    .call .endDeclarations, .call (.elementName (.indexed 1)), .call (.elementName (.indexed 0))]

/-- The name behind the declarations leaves the mark at their sign, where attributes are
announced. -/
theorem marks_of_run_declared :
    let w := ((oneElementCodec.session {}).run oneElementCodec declaredActions).writer
    w.stage ≠ .poisoned ∧ w.pending = .none ∧ w.mark? = some 15 ∧
      Writer.perform oneElementCodec .startAttributes w = .ok .done
        { w with
          buffer := w.buffer.setIfInBounds 15 (Mark.declarations ||| Mark.attributes)
          stage := .attributes } := by
  intro w
  have named : w.stage = .named := by rfl
  have active : w.stage ≠ .poisoned := by rw [named]; nofun
  have atDeclarations : w.mark? = some 15 := by rfl
  obtain ⟨marks, announces, -⟩ := marks_of_run oneElementCodec {} declaredActions active
  obtain ⟨mark, first, marked, known, -, -, performed⟩ := announces named
  cases atDeclarations.symm.trans marked
  cases known
  exact ⟨active, marks.settled 15 atDeclarations, atDeclarations, performed⟩

end Session

end BinaryXml
