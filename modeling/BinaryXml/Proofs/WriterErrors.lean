import BinaryXml.Proofs.FreshItems
import BinaryXml.Proofs.Session

/-!
# Calls that fail

A call fails because it is out of turn, because the item that it should write cannot be made, or
because the sink refuses octets. Out of turn, and without a sink to write to, the writer becomes
unusable; an item that cannot be made leaves everything as it was. There is no fourth cause: an
item that was made and written can always make its entries.
-/

namespace BinaryXml

namespace Call

/-- The item that a call in turn writes. Some calls write none. -/
def item? (c : Codec) (t : Tables) : Call → Except CodecError (Option Item)
  | startDocument header => (Item.ofHeader c t header).map some
  | declare nsPrefix namespaceName => (Item.ofDeclaration t nsPrefix namespaceName).map some
  | elementName name => (Item.ofName t .element name).map some
  | attributeName name => (Item.ofName t .attribute name).map some
  | attributeValue value => (Item.ofValue c t value).map some
  | characters content => Item.ofCharacters? c t content
  | comment text => (Item.ofComment c t text).map some
  | instruction target data => (Item.ofInstruction c t target data).map some
  | _ => .ok none

/-- Whether a name is given by an index, which may lead nowhere. -/
def namesByIndex : Call → Bool
  | elementName (.named _) => false
  | attributeName (.named _) => false
  | elementName _ => true
  | attributeName _ => true
  | _ => false

theorem isAllowed_poisoned (call : Call) (depth : Nat) : call.isAllowed .poisoned depth = false := by
  cases call <;> rfl

variable {c : Codec} {t : Tables} {call : Call} {item : Item} {cause : CodecError}

theorem made_of_map_some {made : Except CodecError Item}
    (h : made.map some = .ok (some item)) : made = .ok item := by
  cases made with
  | ok item' =>
      cases h
      rfl
  | error cause => cases h

theorem failed_of_map_some {made : Except CodecError Item}
    (h : made.map some = .error cause) : made = .error cause := by
  cases made with
  | ok item => cases h
  | error cause' =>
      cases h
      rfl

/-- What a call writes does not conflict with the tables. -/
theorem isFresh_item? (h : call.item? c t = .ok (some item)) : item.IsFresh t := by
  cases call with
  | startDocument header => exact Item.isFresh_ofHeader (made_of_map_some h)
  | declare nsPrefix namespaceName => exact Item.isFresh_ofDeclaration (made_of_map_some h)
  | elementName name => exact Item.isFresh_ofName (made_of_map_some h)
  | attributeName name => exact Item.isFresh_ofName (made_of_map_some h)
  | attributeValue value => exact Item.isFresh_ofValue (made_of_map_some h)
  | characters content => exact Item.isFresh_ofCharacters? h
  | comment text => exact Item.isFresh_ofComment (made_of_map_some h)
  | instruction target data => exact Item.isFresh_ofInstruction (made_of_map_some h)
  | _ => cases h

/-! ## Items that cannot be made -/

theorem ofEmission_eq_error {e : Emission} {entries : List Entry}
    (h : Item.ofEmission e entries = .error cause) : ∃ f, cause = .format f := by
  unfold Item.ofEmission at h
  split at h
  · cases h
  · next f _ =>
      cases h
      exact ⟨f, rfl⟩

theorem ofName_eq_error {kind : NameKind} {reference : NameReference}
    (h : Item.ofName t kind reference = .error cause) :
    (∃ f, cause = .format f) ∨ ((∃ v, cause = .vocabulary v) ∧ ∀ name, reference ≠ .named name) := by
  unfold Item.ofName at h
  cases reference with
  | named name =>
      dsimp only at h
      split at h
      · exact .inl (ofEmission_eq_error h)
      · exact .inl (ofEmission_eq_error h)
  | indexed index =>
      dsimp only at h
      split at h
      · exact .inl (ofEmission_eq_error h)
      · next v _ =>
          cases h
          exact .inr ⟨⟨v, rfl⟩, nofun⟩
  | localIndexed nsPrefix namespaceName index =>
      dsimp only at h
      split at h
      · next v _ =>
          cases h
          exact .inr ⟨⟨v, rfl⟩, nofun⟩
      · split at h
        · cases h
          exact .inr ⟨⟨_, rfl⟩, nofun⟩
        · exact .inl (ofEmission_eq_error h)

theorem ofValue_eq_error {value : Content} (h : Item.ofValue c t value = .error cause) :
    (∃ f, cause = .format f) ∨ t.represent? c .attributeValue value = .error cause := by
  unfold Item.ofValue at h
  cases represented : t.represent? c .attributeValue value with
  | error cause' =>
      rw [represented] at h
      cases h
      exact .inr rfl
  | ok r? =>
      rw [represented] at h
      exact .inl (ofEmission_eq_error h)

theorem ofCharacters?_eq_error {content : Content}
    (h : Item.ofCharacters? c t content = .error cause) :
    (∃ f, cause = .format f) ∨ t.represent? c .characterChunk content = .error cause := by
  unfold Item.ofCharacters? at h
  cases represented : t.represent? c .characterChunk content with
  | error cause' =>
      rw [represented] at h
      cases h
      exact .inr rfl
  | ok r? =>
      rw [represented] at h
      cases r? with
      | none => cases h
      | some r =>
          change (Item.ofEmission _ _).map some = _ at h
          exact .inl (ofEmission_eq_error (failed_of_map_some h))

/-- An item cannot be made if it has no octets, if an index leads nowhere or to an entry that is
not wanted, or if its content cannot be packed. -/
theorem item?_eq_error (h : call.item? c t = .error cause) :
    (∃ f, cause = .format f) ∨ ((∃ v, cause = .vocabulary v) ∧ call.namesByIndex = true) ∨
      ∃ content kind, call.content? = some content ∧
        t.represent? c kind content = .error cause := by
  have byIndex {reference : NameReference} {kind : NameKind}
      (failed : Item.ofName t kind reference = .error cause) :
      (∃ f, cause = .format f) ∨ ((∃ v, cause = .vocabulary v) ∧
        (elementName reference).namesByIndex = true ∧
        (attributeName reference).namesByIndex = true) := by
    refine (ofName_eq_error failed).imp_right fun ⟨unknown, unnamed⟩ => ⟨unknown, ?_⟩
    cases reference with
    | named name => exact absurd rfl (unnamed name)
    | indexed | localIndexed => exact ⟨rfl, rfl⟩
  cases call with
  | startDocument | declare | comment | instruction =>
      exact .inl (ofEmission_eq_error (failed_of_map_some h))
  | elementName reference =>
      exact (byIndex (failed_of_map_some h)).imp_right fun ⟨unknown, first, _⟩ =>
        .inl ⟨unknown, first⟩
  | attributeName reference =>
      exact (byIndex (failed_of_map_some h)).imp_right fun ⟨unknown, _, second⟩ =>
        .inl ⟨unknown, second⟩
  | attributeValue value =>
      exact (ofValue_eq_error (failed_of_map_some h)).imp_right fun failed =>
        .inr ⟨value, _, rfl, failed⟩
  | characters content =>
      exact (ofCharacters?_eq_error h).imp_right fun failed => .inr ⟨content, _, rfl, failed⟩
  | _ => cases h

end Call

namespace Tables

variable {c : Codec} {t : Tables} {kind : StringKind} {content : Content} {cause : CodecError}

theorem represent?_eq_error (h : t.represent? c kind content = .error cause) :
    (∃ id characters a, content = .restricted id characters ∧ cause = .alphabet a ∧
      c.alphabets.encode id characters = .error a) ∨
    ∃ id value a, content = .typed id value ∧ cause = .algorithm a ∧
      c.algorithms.encode id value = .error a := by
  unfold represent? at h
  cases content with
  | text characters => cases h
  | restricted id characters =>
      dsimp only at h
      split at h
      · cases h
      · split at h
        · cases h
        · next a failed =>
            cases h
            exact .inl ⟨id, characters, a, rfl, rfl, failed⟩
  | typed id value =>
      dsimp only at h
      split at h
      · cases h
      · next a failed =>
          cases h
          exact .inr ⟨id, value, a, rfl, rfl, failed⟩
  | undecoded packing id octets => cases h

end Tables

/-- An item that cannot be made is no mistake of the order of calls, nor of the sink. -/
theorem Call.cause_of_item? {c : Codec} {t : Tables} {call : Call} {cause : CodecError}
    (h : call.item? c t = .error cause) :
    (∀ p, cause ≠ .protocol p) ∧ ∀ reason, cause ≠ .sink reason := by
  rcases item?_eq_error h with ⟨f, rfl⟩ | ⟨⟨v, rfl⟩, -⟩ | ⟨content, kind, -, failed⟩
  · exact ⟨nofun, nofun⟩
  · exact ⟨nofun, nofun⟩
  · rcases Tables.represent?_eq_error failed with ⟨_, _, a, -, rfl, -⟩ | ⟨_, _, a, -, rfl, -⟩
    · exact ⟨nofun, nofun⟩
    · exact ⟨nofun, nofun⟩

namespace Writer

variable {c : Codec} {call : Call} {w w' : Writer} {item : Item} {cause : CodecError}
  {reply : Reply}

/-! ## Sinks that refuse octets -/

/-- The sink refused what was in the buffer. -/
structure Blocked (w : Writer) (cause : CodecError) (w' : Writer) : Prop where
  cause_eq : ∃ reason, cause = .sink reason
  poisoned : w'.stage = .poisoned
  limited : w.sink.capacity? ≠ none

theorem handOver_eq_error (h : handOver w = .error cause w') : Blocked w cause w' := by
  unfold handOver at h
  split at h
  · cases h
  · split at h
    · cases h
    · next reason refused =>
        cases h
        refine ⟨⟨reason, rfl⟩, rfl, ?_⟩
        intro unlimited
        rw [Sink.write, Sink.fits, unlimited] at refused
        cases refused

theorem sink_settle_put (w : Writer) (octets : Octets) : (w.settle.put octets).sink = w.sink := by
  rw [settle_eq]
  rfl

theorem conflict_of_enter {entries : List Entry} (h : enter entries w = .error cause w') :
    entries.findSome? w.tables.conflict? ≠ none := by
  unfold enter at h
  split at h
  · next conflict => simp [conflict]
  · cases h

/-- Once its octets are written, an item without conflicts makes its entries. -/
theorem write_eq_error (fresh : item.IsFresh w.tables) (h : write item w = .error cause w') :
    Blocked w cause w' := by
  rw [write_eq] at h
  rcases bind_eq_error h with refused | ⟨_, u, handed, entered⟩
  · have blocked := handOver_eq_error refused
    refine ⟨blocked.cause_eq, blocked.poisoned, ?_⟩
    have limited := blocked.limited
    rwa [sink_settle_put] at limited
  · -- The tables are still those that the item was made from.
    have tables : u.tables = w.tables := by
      have agrees := agrees_of_handOver handed
      rw [settle_eq] at agrees
      exact agrees.tables_eq
    have conflict := conflict_of_enter entered
    rw [tables] at conflict
    exact absurd fresh conflict

/-! ## The three causes -/

theorem writeNew_eq_error {make : Writer → Except CodecError Item}
    (fresh : ∀ item, make w = .ok item → item.IsFresh w.tables)
    (h : writeNew make w = .error cause w') :
    ((make w).map some = .error cause ∧ w' = w) ∨ Blocked w cause w' := by
  unfold writeNew at h
  split at h
  · next item made => exact .inr (write_eq_error (fresh item made) h)
  · next failed =>
      cases h
      rw [failed]
      exact .inl ⟨rfl, rfl⟩

theorem carryOut_eq_error (h : carryOut c call w = .error cause w') :
    (call.item? c w.tables = .error cause ∧ w' = w) ∨ Blocked w cause w' := by
  have fresh (item : Item) (made : call.item? c w.tables = .ok (some item)) :
      item.IsFresh w.tables := Call.isFresh_item? made
  cases call with
  | startDocument | declare | elementName | attributeName | attributeValue | comment
  | instruction =>
      unfold carryOut at h
      refine writeNew_eq_error (fun item made => fresh item ?_) h
      rw [Call.item?, made]
      rfl
  | initiate | mark | startDeclarations | endDeclarations | startAttributes => cases h
  | endStartElement =>
      have blocked := handOver_eq_error h
      refine .inr ⟨blocked.cause_eq, blocked.poisoned, ?_⟩
      have limited := blocked.limited
      dsimp only at limited
      split at limited
      · rwa [terminate_eq] at limited
      · exact limited
  | endElement =>
      have blocked := handOver_eq_error h
      refine .inr ⟨blocked.cause_eq, blocked.poisoned, ?_⟩
      have limited := blocked.limited
      dsimp only at limited
      rwa [terminate_eq] at limited
  | characters content =>
      unfold carryOut at h
      dsimp only at h
      split at h
      · next item made => exact .inr (write_eq_error (fresh item made) h)
      · cases h
      · next failed =>
          cases h
          exact .inl ⟨failed, rfl⟩

/-- A call fails out of turn, for an item that cannot be made, or at the sink. -/
theorem perform_eq_error (h : perform c call w = .error cause w') :
    (call.isAllowed w.stage w.depth = false ∧ (∃ p, cause = .protocol p) ∧ w'.stage = .poisoned) ∨
      (call.item? c w.tables = .error cause ∧ w' = w ∧ w.stage ≠ .poisoned) ∨
      Blocked w cause w' := by
  unfold perform at h
  split at h
  · next poisoned =>
      cases h
      exact .inl ⟨by rw [poisoned, Call.isAllowed_poisoned], ⟨_, rfl⟩, poisoned⟩
  · next active =>
      split at h
      · rcases bind_eq_error h with failed | ⟨_, _, -, moved⟩
        · rcases carryOut_eq_error failed with ⟨unmade, same⟩ | blocked
          · exact .inr (.inl ⟨unmade, same, active⟩)
          · exact .inr (.inr blocked)
        · cases moved
      · next notAllowed =>
          cases h
          exact .inl ⟨Bool.eq_false_iff.2 notAllowed, ⟨_, rfl⟩, rfl⟩

/-- A writer that refuses a call for its turn was not at that turn, and will not come to it. -/
theorem perform_eq_protocol {p : ProtocolError}
    (h : perform c call w = .error (.protocol p) w') :
    call.isAllowed w.stage w.depth = false ∧ w'.stage = .poisoned := by
  rcases perform_eq_error h with ⟨notAllowed, -, poisoned⟩ | ⟨unmade, -⟩ | blocked
  · exact ⟨notAllowed, poisoned⟩
  · exact absurd rfl ((Call.cause_of_item? unmade).1 p)
  · obtain ⟨reason, other⟩ := blocked.cause_eq
    cases other

/-! ## Sinks without a limit -/

/-- Nothing about a sink changes but what was written to it. -/
theorem sink_of_handOver (h : handOver w = .ok () w') :
    w'.sink = { w.sink with written := w'.sink.written } := by
  unfold handOver at h
  split at h
  · cases h
    rfl
  · split at h
    · next taken =>
        cases h
        unfold Sink.write at taken
        split at taken <;> cases taken
        rfl
    · cases h

theorem sink_of_write (h : write item w = .ok () w') :
    w'.sink = { w.sink with written := w'.sink.written } := by
  rw [write_eq] at h
  obtain ⟨_, u, handed, entered⟩ := bind_eq_ok h
  have kept := sink_of_handOver handed
  rw [sink_settle_put] at kept
  obtain ⟨-, rfl⟩ := enter_eq_ok entered
  exact kept

theorem sink_of_writeNew {make : Writer → Except CodecError Item}
    (h : writeNew make w = .ok () w') : w'.sink = { w.sink with written := w'.sink.written } := by
  unfold writeNew at h
  split at h
  · exact sink_of_write h
  · cases h

theorem sink_terminate (w : Writer) : w.terminate.sink = w.sink := by
  rw [terminate_eq]

theorem sink_of_carryOut (h : carryOut c call w = .ok () w') :
    w'.sink = { w.sink with written := w'.sink.written } := by
  unfold carryOut at h
  cases call with
  | startDocument | declare | elementName | attributeName | attributeValue | comment
  | instruction => exact sink_of_writeNew h
  | initiate | startDeclarations | endDeclarations =>
      cases h
      rfl
  | mark =>
      cases h
      have same : w.settle.sink = w.sink := by rw [settle_eq]
      change w.settle.sink = { w.sink with written := w.settle.sink.written }
      rw [same]
  | startAttributes =>
      cases h
      rw [announceAttributes_eq]
  | endStartElement =>
      have kept := sink_of_handOver h
      dsimp only at kept
      split at kept
      · rwa [sink_terminate] at kept
      · exact kept
  | endElement =>
      have kept := sink_of_handOver h
      dsimp only at kept
      rwa [sink_terminate] at kept
  | characters content =>
      dsimp only at h
      split at h
      · exact sink_of_write h
      · cases h
        rfl
      · cases h

theorem sink_of_perform (h : perform c call w = .ok reply w') :
    w'.sink = { w.sink with written := w'.sink.written } := by
  obtain ⟨-, u, done, rfl⟩ := perform_eq_ok h
  exact (sink_of_carryOut done :)

/-- An item that was made is written, and its entries are made. -/
theorem tables_of_carryOut (made : call.item? c w.tables = .ok (some item))
    (h : carryOut c call w = .ok () w') : w'.tables = item.enterInto w.tables := by
  unfold carryOut at h
  cases call with
  | startDocument | declare | elementName | attributeName | attributeValue | comment
  | instruction =>
      obtain ⟨item', made', wrote⟩ := wrote_of_writeNew h
      cases (Call.made_of_map_some made).symm.trans made'
      exact wrote.tables_eq
  | initiate | mark | startDeclarations | endDeclarations | startAttributes | endStartElement
  | endElement => cases made
  | characters content =>
      change Item.ofCharacters? c w.tables content = _ at made
      dsimp only at h
      rw [made] at h
      exact (wrote_of_write h).tables_eq

/-- With an unlimited sink, a call in turn succeeds unless its item cannot be made. -/
theorem exists_perform {item? : Option Item} (unlimited : w.sink.capacity? = none)
    (allowed : call.isAllowed w.stage w.depth = true)
    (made : call.item? c w.tables = .ok item?) : ∃ reply w', perform c call w = .ok reply w' := by
  cases performed : perform c call w with
  | ok reply w' => exact ⟨reply, w', rfl⟩
  | error cause w' =>
      rcases perform_eq_error performed with ⟨out, -⟩ | ⟨unmade, -⟩ | blocked
      · cases allowed.symm.trans out
      · cases made.symm.trans unmade
      · exact absurd unlimited blocked.limited

theorem perform_of_item? (unlimited : w.sink.capacity? = none)
    (allowed : call.isAllowed w.stage w.depth = true)
    (made : call.item? c w.tables = .ok (some item)) :
    ∃ reply w', perform c call w = .ok reply w' ∧ w'.tables = item.enterInto w.tables := by
  obtain ⟨reply, w', performed⟩ := exists_perform unlimited allowed made
  obtain ⟨-, u, done, rfl⟩ := perform_eq_ok performed
  refine ⟨_, _, performed, ?_⟩
  exact (tables_of_carryOut made done :)

end Writer

/-! ## Sessions -/

namespace Session

variable {c : Codec} {s : Session}

theorem poisoned_or_unlimited_act
    (h : s.writer.stage = .poisoned ∨ s.writer.sink.capacity? = none) (action : Action) :
    (s.act c action).writer.stage = .poisoned ∨
      (s.act c action).writer.sink.capacity? = none := by
  cases action with
  | call call =>
      unfold Session.act
      dsimp only
      split
      · next performed =>
          rcases h with poisoned | unlimited
          · cases performed.symm.trans (Writer.perform_of_poisoned poisoned)
          · obtain ⟨-, u, done, rfl⟩ := Writer.perform_eq_ok performed
            exact .inr ((congrArg Sink.capacity? (Writer.sink_of_carryOut done)).trans unlimited)
      · next failed =>
          rcases Writer.unchanged_of_perform failed with same | poisoned
          · rw [same]
            exact h
          · exact .inl poisoned
  | reserveName kind => exact h
  | reserveLocalName => exact h

theorem poisoned_or_unlimited_run
    (h : s.writer.stage = .poisoned ∨ s.writer.sink.capacity? = none) (actions : List Action) :
    (s.run c actions).writer.stage = .poisoned ∨
      (s.run c actions).writer.sink.capacity? = none := by
  induction actions generalizing s with
  | nil => exact h
  | cons action actions ih => exact ih (poisoned_or_unlimited_act h action)

/-- After any session over an unlimited sink, a call that fails out of turn makes the writer
unusable and one that fails for another cause leaves all of it as it was. In particular no entry
of an item that was written is ever refused. -/
theorem unchanged_or_poisoned_of_run (c : Codec) (sink : Sink) (unlimited : sink.capacity? = none)
    (actions : List Action) (call : Call) :
    let w := ((c.session sink).run c actions).writer
    (∀ cause w', Writer.perform c call w = .error cause w' →
      ((∃ p, cause = .protocol p) ∧ w'.stage = .poisoned) ∨
        ((∀ p, cause ≠ .protocol p) ∧ w'.stage ≠ .poisoned ∧ w' = w)) ∧
      ∀ item, call.isAllowed w.stage w.depth = true →
        call.item? c w.tables = .ok (some item) →
          ∃ reply w', Writer.perform c call w = .ok reply w' ∧
            w'.tables = item.enterInto w.tables := by
  intro w
  -- A writer that is already unusable refuses the call before it could come to the sink.
  have reached : w.stage = .poisoned ∨ w.sink.capacity? = none :=
    poisoned_or_unlimited_run (s := c.session sink) (.inr unlimited) actions
  refine ⟨?_, ?_⟩
  · intro cause w' failed
    rcases Writer.perform_eq_error failed with ⟨-, protocol⟩ | ⟨unmade, rfl, active⟩ | blocked
    · exact .inl protocol
    · exact .inr ⟨(Call.cause_of_item? unmade).1, active, rfl⟩
    · rcases reached with poisoned | unlimited
      · cases failed.symm.trans (Writer.perform_of_poisoned poisoned)
        exact .inl ⟨⟨_, rfl⟩, poisoned⟩
      · exact absurd unlimited blocked.limited
  · intro item allowed made
    rcases reached with poisoned | unlimited
    · rw [poisoned, Call.isAllowed_poisoned] at allowed
      cases allowed
    · exact Writer.perform_of_item? unlimited allowed made

/-- An index that was only reserved is refused and can be waited for; a call out of turn is the
end of the writer. -/
theorem unchanged_or_poisoned_of_run_forwardReference :
    let w := ((({} : Codec).session {}).run {}
      [.reserveName .element, .call (.startDocument {}), .call .initiate, .call .mark]).writer
    Writer.perform {} (.elementName (.indexed 0)) w =
        .error (.vocabulary (.forwardReference (.names .element) 0)) w ∧
      w.stage ≠ .poisoned ∧
      ∃ p w', Writer.perform {} .endElement w = .error (.protocol p) w' ∧
        w'.stage = .poisoned := by
  intro w
  have atomic (call : Call) := unchanged_or_poisoned_of_run {} {} rfl
    [.reserveName .element, .call (.startDocument {}), .call .initiate, .call .mark] call
  obtain ⟨w', refused⟩ : ∃ w', Writer.perform {} (.elementName (.indexed 0)) w =
      .error (.vocabulary (.forwardReference (.names .element) 0)) w' := ⟨_, rfl⟩
  obtain ⟨p, u, stopped⟩ : ∃ p u, Writer.perform {} .endElement w =
      .error (.protocol p) u := ⟨_, _, rfl⟩
  rcases (atomic _).1 _ _ refused with ⟨⟨_, protocol⟩, -⟩ | ⟨-, active, same⟩
  · cases protocol
  rcases (atomic _).1 _ _ stopped with ⟨-, poisoned⟩ | ⟨other, -⟩
  · rw [same] at refused active
    exact ⟨refused, active, p, u, stopped, poisoned⟩
  · exact absurd rfl (other p)

end Session

end BinaryXml
