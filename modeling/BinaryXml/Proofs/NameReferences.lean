import BinaryXml.Proofs.CallSuccess
import BinaryXml.Proofs.ElementMarks
import BinaryXml.Proofs.TableRuns

/-!
# Three ways to give a name

A name is given by its parts, by its index, or by the index of its local part. The last two spare
the writer the search in a table, and they do what the search would have led to: looking up an
index and asking for the entry there are inverse to each other, so the item that is written is the
same, and with it everything that becomes of the writer.
-/

namespace BinaryXml

/-- Where a name of a kind is in turn. -/
def Stage.awaitsName : NameKind → Stage → Bool
  | .element => fun s => s = marked || s = declared
  | .attribute => fun s => s = attributes

namespace Call

/-- The call that gives a name of a kind. -/
def ofName : NameKind → NameReference → Call
  | .element => elementName
  | .attribute => attributeName

variable (kind : NameKind) (reference : NameReference)

theorem isAllowed_ofName (stage : Stage) (depth : Nat) :
    (ofName kind reference).isAllowed stage depth = stage.awaitsName kind := by
  cases kind <;> rfl

theorem stageAfter_ofName (reference' : NameReference) :
    (ofName kind reference).stageAfter = (ofName kind reference').stageAfter := by
  cases kind <;> rfl

theorem item?_ofName (c : Codec) (t : Tables) :
    (ofName kind reference).item? c t = (Item.ofName t kind reference).map some := by
  cases kind <;> rfl

end Call

theorem Stage.isInTag_of_awaitsName {kind : NameKind} {stage : Stage}
    (awaits : stage.awaitsName kind = true) : stage.isInTag = true := by
  cases kind with
  | element =>
      have : stage = marked ∨ stage = declared := by simpa [awaitsName] using awaits
      rcases this with rfl | rfl <;> rfl
  | _ =>
      have : stage = attributes := by simpa [awaitsName] using awaits
      rw [this]
      rfl

/-! ## Looking up what is established -/

section Lookup

variable {kind : TableKind} {α : Type} [DecidableEq α] [Hashable α] {t : Table kind α} {v : α}
  {i : Nat}

theorem Table.wireIndex?_of_get (held : t.get i = .ok v) (below : i < indexLimit) :
    t.wireIndex? v = some i := by
  rw [wireIndex?, indexOf?_eq_some.2 (get_eq_ok.1 held)]
  exact Option.filter_eq_some_iff.2 ⟨rfl, decide_eq_true below⟩

theorem Table.wireIndex?_of_not_contains (new : t.contains v = false) : t.wireIndex? v = none := by
  rw [wireIndex?, Option.not_isSome_iff_eq_none.1 (Bool.eq_false_iff.1 new)]
  rfl

end Lookup

namespace Item

variable {t : Tables} {kind : NameKind} {i : Nat}

theorem ofName_indexed {name : QualifiedName} (held : (t.vocabulary.names kind).get i = .ok name) :
    ofName t kind (.indexed i) = ofNameIndex kind i := by
  simp only [ofName, held]

/-- A new name is written by its parts, of which the local one is found at its index. -/
theorem ofName_localIndexed {localName nsPrefix namespaceName : String}
    (held : t.vocabulary.localNames.get i = .ok localName) (below : i < indexLimit)
    (new : (t.vocabulary.names kind).contains { nsPrefix, namespaceName, localName } = false) :
    ofName t kind (.localIndexed nsPrefix namespaceName i) =
      ofName t kind (.named { nsPrefix, namespaceName, localName }) := by
  have unknown := Table.wireIndex?_of_not_contains new
  have found : t.identifying .localName localName = .indexed i := by
    have := Table.wireIndex?_of_get held below
    simp only [Tables.identifying, Vocabulary.strings, this]
  simp [ofName, held, new, unknown, found]

/-- Names are refused for the form of their octets only, unless they are given by an index. -/
theorem format_of_ofName_named {name : QualifiedName} {cause : CodecError}
    (failed : ofName t kind (.named name) = .error cause) : ∃ f, cause = .format f := by
  rcases Call.ofName_eq_error failed with format | ⟨-, other⟩
  · exact format
  · exact absurd rfl (other name)

end Item

/-! ## Calls -/

namespace Writer

variable {c : Codec} {w : Writer} {kind : NameKind} {reference reference' : NameReference}

@[simp] theorem reply_ofName_named (w : Writer) (kind : NameKind) (name : QualifiedName) :
    w.reply (Call.ofName kind (.named name)) =
      .named ((w.tables.vocabulary.names kind).wireIndex? name).isSome := by
  cases kind <;> rfl

@[simp] theorem reply_ofName_indexed (w : Writer) (kind : NameKind) (i : Nat) :
    w.reply (Call.ofName kind (.indexed i)) = .done := by
  cases kind <;> rfl

@[simp] theorem reply_ofName_localIndexed (w : Writer) (kind : NameKind)
    (nsPrefix namespaceName : String) (i : Nat) :
    w.reply (Call.ofName kind (.localIndexed nsPrefix namespaceName i)) = .done := by
  cases kind <;> rfl

theorem perform_ofName_of_made (marked : w.mark?.isSome = true) (settled : w.pending = .none)
    (awaits : w.stage.awaitsName kind = true) {item : Item}
    (made : Item.ofName w.tables kind reference = .ok item) :
    perform c (Call.ofName kind reference) w = .ok (w.reply (Call.ofName kind reference))
      { w with
        buffer := w.buffer ++ item.octets
        tables := item.enterInto w.tables
        stage := (Call.ofName kind reference).stageAfter } := by
  refine perform_of_marked marked settled ?_ ?_
  · rw [Call.isAllowed_ofName, awaits]
  · rw [Call.item?_ofName, made]
    rfl

theorem perform_ofName_of_failed (awaits : w.stage.awaitsName kind = true) {cause : CodecError}
    (failed : Item.ofName w.tables kind reference = .error cause) :
    perform c (Call.ofName kind reference) w = .error cause w := by
  have allowed : (Call.ofName kind reference).isAllowed w.stage w.depth = true := by
    rw [Call.isAllowed_ofName, awaits]
  refine perform_of_error (stage_ne_poisoned_of_isAllowed allowed) allowed ?_
  cases kind <;> simp only [Call.ofName, carryOut, writeNew, failed]

/-- References to the same item are written alike: only what the caller is told differs. -/
theorem perform_ofName_congr (marked : w.mark?.isSome = true) (settled : w.pending = .none)
    (awaits : w.stage.awaitsName kind = true)
    (same : Item.ofName w.tables kind reference = Item.ofName w.tables kind reference') :
    (∃ w',
      perform c (Call.ofName kind reference) w =
        .ok (w.reply (Call.ofName kind reference)) w' ∧
      perform c (Call.ofName kind reference') w =
        .ok (w.reply (Call.ofName kind reference')) w') ∨
    ∃ cause, Item.ofName w.tables kind reference' = .error cause ∧
      perform c (Call.ofName kind reference) w = .error cause w ∧
      perform c (Call.ofName kind reference') w = .error cause w := by
  cases made' : Item.ofName w.tables kind reference' with
  | ok item =>
      have performed := perform_ofName_of_made (c := c) marked settled awaits (same.trans made')
      rw [Call.stageAfter_ofName kind reference reference'] at performed
      exact .inl ⟨_, performed, perform_ofName_of_made marked settled awaits made'⟩
  | error cause =>
      exact .inr ⟨cause, rfl, perform_ofName_of_failed awaits (same.trans made'),
        perform_ofName_of_failed awaits made'⟩

/-- An established index can always be written, and the name there is written like it. -/
theorem perform_indexed (marked : w.mark?.isSome = true) (settled : w.pending = .none)
    (awaits : w.stage.awaitsName kind = true) {i : Nat} {name : QualifiedName}
    (below : i < indexLimit) (held : (w.tables.vocabulary.names kind).get i = .ok name) :
    ∃ w', perform c (Call.ofName kind (.indexed i)) w = .ok .done w' ∧
      perform c (Call.ofName kind (.named name)) w = .ok (.named true) w' := by
  have found := Table.wireIndex?_of_get held below
  obtain ⟨item, made⟩ := Item.exists_ofNameIndex kind below
  rcases perform_ofName_congr (c := c) marked settled awaits (ofName_named found held).symm with
    ⟨w', indexed, named⟩ | ⟨cause, failed, -⟩
  · rw [reply_ofName_indexed] at indexed
    rw [reply_ofName_named, found] at named
    exact ⟨w', indexed, named⟩
  · rw [ofName_named found held, Item.ofName_indexed held, made] at failed
    cases failed

theorem perform_localIndexed (marked : w.mark?.isSome = true) (settled : w.pending = .none)
    (awaits : w.stage.awaitsName kind = true) {i : Nat}
    {localName nsPrefix namespaceName : String} (below : i < indexLimit)
    (held : w.tables.vocabulary.localNames.get i = .ok localName)
    (new : (w.tables.vocabulary.names kind).contains { nsPrefix, namespaceName, localName } =
      false) :
    (∃ w',
      perform c (Call.ofName kind (.localIndexed nsPrefix namespaceName i)) w = .ok .done w' ∧
      perform c (Call.ofName kind (.named { nsPrefix, namespaceName, localName })) w =
        .ok (.named false) w') ∨
    ∃ cause,
      perform c (Call.ofName kind (.localIndexed nsPrefix namespaceName i)) w =
        .error (.format cause) w ∧
      perform c (Call.ofName kind (.named { nsPrefix, namespaceName, localName })) w =
        .error (.format cause) w := by
  have same := Item.ofName_localIndexed held below new
  rcases perform_ofName_congr (c := c) marked settled awaits same with
    ⟨w', indexed, named⟩ | ⟨cause, failed, refused⟩
  · rw [reply_ofName_localIndexed] at indexed
    rw [reply_ofName_named, Table.wireIndex?_of_not_contains new] at named
    exact .inl ⟨w', indexed, named⟩
  · obtain ⟨f, rfl⟩ := Item.format_of_ofName_named failed
    exact .inr ⟨f, refused⟩

end Writer

/-! ## Sessions -/

namespace Session

open Writer

/-- Wherever a session awaits a name, an established index is written like the name there, and the
index of an established local part like the parts of a name that is new. Writer and octets are the
same afterwards, tables included; if the parts cannot be written, both are refused for the same
cause and leave the writer as it was. -/
theorem names_agree_of_run (c : Codec) (sink : Sink) (actions : List Action) (kind : NameKind) :
    let w := ((c.session sink).run c actions).writer
    w.stage.awaitsName kind = true →
      (∀ i name, i < indexLimit → (w.tables.vocabulary.names kind).get i = .ok name →
        ∃ w', perform c (Call.ofName kind (.indexed i)) w = .ok .done w' ∧
          perform c (Call.ofName kind (.named name)) w = .ok (.named true) w') ∧
      ∀ i localName nsPrefix namespaceName, i < indexLimit →
        w.tables.vocabulary.localNames.get i = .ok localName →
        (w.tables.vocabulary.names kind).contains { nsPrefix, namespaceName, localName } = false →
        (∃ w',
          perform c (Call.ofName kind (.localIndexed nsPrefix namespaceName i)) w = .ok .done w' ∧
          perform c (Call.ofName kind (.named { nsPrefix, namespaceName, localName })) w =
            .ok (.named false) w') ∨
        ∃ cause,
          perform c (Call.ofName kind (.localIndexed nsPrefix namespaceName i)) w =
            .error (.format cause) w ∧
          perform c (Call.ofName kind (.named { nsPrefix, namespaceName, localName })) w =
            .error (.format cause) w := by
  intro w awaits
  have inTag := Stage.isInTag_of_awaitsName awaits
  have active : w.stage ≠ .poisoned := by
    intro poisoned
    rw [poisoned] at inTag
    cases inTag
  obtain ⟨marked, settled⟩ := (marks_session c sink actions active).isSome inTag
  refine ⟨?_, ?_⟩
  · intro i name below held
    exact perform_indexed marked settled awaits below held
  · intro i localName nsPrefix namespaceName below held new
    exact perform_localIndexed marked settled awaits below held new

/-- A vocabulary that knows one element, and one local name that is not the name of an element. -/
def oneLocalName : SharedVocabulary where
  externalUri := some "urn:local"
  vocabulary :=
    { oneElement.vocabulary with
      localNames := { base := Roster.empty.push "b" (by simp [Roster.empty, Roster.indexOf?]) } }
  reset_eq := rfl

def oneLocalNameCodec : Codec where
  initial? := some oneLocalName
  externals := [("urn:local", oneLocalName)]
  initial_named v h := by
    cases h
    exact ⟨"urn:local", rfl, rfl⟩

/-- Both indices are taken up where the first element is marked. -/
theorem names_agree_of_run_oneLocalName :
    let w := ((oneLocalNameCodec.session {}).run oneLocalNameCodec
      [.call (.startDocument {}), .call .initiate, .call .mark]).writer
    w.stage.awaitsName .element = true ∧
      (∃ w', perform oneLocalNameCodec (.elementName (.indexed 0)) w = .ok .done w' ∧
        perform oneLocalNameCodec (.elementName (.named { localName := "a" })) w =
          .ok (.named true) w') ∧
      ∃ w', perform oneLocalNameCodec (.elementName (.localIndexed "" "" 0)) w = .ok .done w' ∧
        perform oneLocalNameCodec (.elementName (.named { localName := "b" })) w =
          .ok (.named false) w' := by
  intro w
  have awaits : w.stage.awaitsName .element = true := by rfl
  have known : (w.tables.vocabulary.names .element).get 0 = .ok { localName := "a" } := by rfl
  have local_known : w.tables.vocabulary.localNames.get 0 = .ok "b" := by rfl
  have new : (w.tables.vocabulary.names .element).contains
      { nsPrefix := "", namespaceName := "", localName := "b" } = false := by
    have entries : (w.tables.vocabulary.names .element).toList = [{ localName := "a" }] := by rfl
    rw [Table.contains, Table.indexOf?_eq_none_iff.2 (by rw [entries]; decide)]
    rfl
  obtain ⟨indexed, localIndexed⟩ := names_agree_of_run oneLocalNameCodec {} _ .element awaits
  refine ⟨awaits, indexed 0 _ (by decide) known, ?_⟩
  rcases localIndexed 0 "b" "" "" (by decide) local_known new with written | ⟨cause, refused, -⟩
  · exact written
  · obtain ⟨item, made⟩ : ∃ item,
        Item.ofName w.tables .element (.localIndexed "" "" 0) = .ok item := by
      simp only [Item.ofName, local_known, new]
      exact ⟨_, rfl⟩
    have performed := perform_ofName_of_made (c := oneLocalNameCodec) rfl rfl awaits made
    cases refused.symm.trans performed

end Session

end BinaryXml
