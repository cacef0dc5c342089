import BinaryXml.Proofs.WrittenOctets

/-!
# Text that a policy admits

Attribute values and chunks are entered into their tables as the policy admits them, which is told
how much text the table has taken in. The writer keeps a count of that beside the table, asks the
policy before it writes, and counts once the entry is made. So every entry was admitted at the
size that the entries before it have, whatever is written in between and whatever fails, and a
policy that sets a limit to the size has it kept.
-/

namespace BinaryXml

/-- How many octets texts take in UTF-8. -/
def textSize : List String → Nat
  | [] => 0
  | text :: rest => text.utf8ByteSize + textSize rest

theorem textSize_append (front back : List String) :
    textSize (front ++ back) = textSize front + textSize back := by
  induction front with
  | nil => exact (Nat.zero_add _).symm
  | cons text front ih => rw [List.cons_append, textSize, ih, textSize, Nat.add_assoc]

namespace IndexingPolicy

/-- Each text is admitted behind those before it, and all of them behind `taken` octets. -/
def admitsAll (p : IndexingPolicy) (kind : TableKind) : Nat → List String → Bool
  | _, [] => true
  | taken, text :: rest =>
    p.admits kind text taken && p.admitsAll kind (taken + text.utf8ByteSize) rest

variable {kind : TableKind} {taken : Nat} {texts : List String} {limits : Config}

theorem admitsAll_concat (p : IndexingPolicy) (text : String) :
    p.admitsAll kind taken (texts ++ [text]) =
      (p.admitsAll kind taken texts && p.admits kind text (taken + textSize texts)) := by
  induction texts generalizing taken with
  | nil => simp [admitsAll, textSize]
  | cons first texts ih => simp [admitsAll, textSize, ih, Bool.and_assoc, Nat.add_assoc]

theorem length_of_admitsAll_values
    (h : (byLength limits).admitsAll (.strings .attributeValue) taken texts = true) :
    ∀ text ∈ texts, limits.attributeValues.contains text.length = true := by
  induction texts generalizing taken with
  | nil => nofun
  | cons first texts ih =>
      obtain ⟨admitted, later⟩ := Bool.and_eq_true_iff.1 h
      exact List.forall_mem_cons.2 ⟨admitted, ih later⟩

/-- Chunks of suitable length are admitted up to the limit, which they never exceed together. -/
theorem within_of_admitsAll_chunks
    (h : (byLength limits).admitsAll (.strings .characterChunk) taken texts = true)
    (within : taken ≤ limits.chunkMemoryLimit) :
    taken + textSize texts ≤ limits.chunkMemoryLimit ∧
      ∀ text ∈ texts, limits.characterChunks.contains text.length = true := by
  induction texts generalizing taken with
  | nil => exact ⟨within, nofun⟩
  | cons first texts ih =>
      obtain ⟨admitted, later⟩ := Bool.and_eq_true_iff.1 h
      obtain ⟨suitable, fits⟩ := Bool.and_eq_true_iff.1 admitted
      obtain ⟨bound, rest⟩ := ih later (of_decide_eq_true fits)
      refine ⟨?_, List.forall_mem_cons.2 ⟨suitable, rest⟩⟩
      rwa [Nat.add_assoc] at bound

end IndexingPolicy

theorem LengthRange.contains_iff {r : LengthRange} {length : Nat} :
    r.contains length = true ↔ r.min ≤ length ∧ length < r.max := by
  simp [contains]

/-- The tables whose text is counted. -/
def StringKind.isCounted : StringKind → Bool
  | attributeValue => true
  | characterChunk => true
  | _ => false

def Entry.isCounted : Entry → Bool
  | string kind _ => kind.isCounted
  | name _ _ => false

namespace Tables

/-- The strings that were added to a table, which are all but those of its base. -/
def added (t : Tables) (kind : StringKind) : List String :=
  (t.vocabulary.strings kind).added.toList

/-- The count is right, and what was added was admitted. -/
structure Keeps (p : IndexingPolicy) (kind : StringKind) (t : Tables) : Prop where
  taken_eq : t.taken kind = textSize (t.added kind)
  admitted : p.admitsAll (.strings kind) 0 (t.added kind) = true

variable {p : IndexingPolicy} {kind : StringKind} {t u : Tables} {c : Codec} {item : Item}
  {r : Representation}

/-! ## Entries -/

theorem Keeps.of_same (h : t.Keeps p kind) (taken : u.taken kind = t.taken kind)
    (added : u.added kind = t.added kind) : u.Keeps p kind := by
  refine ⟨?_, ?_⟩
  · rw [taken, added, h.taken_eq]
  · rw [added, h.admitted]

theorem absorb_cases {kind : TableKind} (table : Table kind String) (text : String) :
    absorb table text = (false, table) ∨
      ∃ isNew, absorb table text = (true, table.insert text isNew) := by
  unfold absorb
  split
  · exact .inl rfl
  · split
    · next isNew => exact .inr ⟨isNew, rfl⟩
    · exact .inl rfl

theorem taken_enter_literal (counted : kind.isCounted = true) (t : Tables) (text : String) :
    (t.enter (.string kind (.literal text true))).taken kind =
      t.taken kind +
        if (absorb (t.vocabulary.strings kind) text).1 then text.utf8ByteSize else 0 := by
  cases kind with
  | attributeValue | characterChunk => rfl
  | _ => cases counted

theorem added_enter_literal (t : Tables) (kind : StringKind) (text : String) :
    (t.enter (.string kind (.literal text true))).added kind =
      (absorb (t.vocabulary.strings kind) text).2.added.toList := by
  rw [added, vocabulary_enter_literal]
  cases kind <;> rfl

/-- A text that is admitted is counted if the table takes it in. -/
theorem Keeps.enter_literal (h : t.Keeps p kind) (counted : kind.isCounted = true) {text : String}
    (admitted : p.admits (.strings kind) text (t.taken kind) = true) :
    (t.enter (.string kind (.literal text true))).Keeps p kind := by
  have taken := taken_enter_literal counted t text
  have added := added_enter_literal t kind text
  rcases absorb_cases (t.vocabulary.strings kind) text with same | ⟨isNew, entered⟩
  · rw [same] at taken added
    exact h.of_same taken added
  · rw [entered] at taken added
    have appended : (t.enter (.string kind (.literal text true))).added kind =
        t.added kind ++ [text] := by
      rw [added]
      exact Roster.toList_push (Table.indexOf?_eq_none.1 isNew).2
    refine ⟨?_, ?_⟩
    · rw [taken, appended, h.taken_eq, textSize_append]
      rfl
    · rw [appended, IndexingPolicy.admitsAll_concat, h.admitted, Nat.zero_add, ← h.taken_eq,
        admitted]
      rfl

theorem taken_enter_of_ne {entered : StringKind} (other : kind ≠ entered) (t : Tables)
    (r : Representation) : (t.enter (.string entered r)).taken kind = t.taken kind := by
  rcases t.enter_string_cases entered r with ⟨text, rfl⟩ | same
  · cases kind with
    | attributeValue => exact if_neg other.symm
    | characterChunk => exact if_neg other.symm
    | _ => rfl
  · rw [same]

/-- Entries of other tables change nothing. -/
theorem Keeps.enter_other (h : t.Keeps p kind) {entry : Entry}
    (other : ∀ r, entry ≠ .string kind r) : (t.enter entry).Keeps p kind := by
  cases entry with
  | string entered r =>
      have ne : kind ≠ entered := fun same => other r (by rw [same])
      refine h.of_same (taken_enter_of_ne ne t r) ?_
      rw [added, strings_enter_of_ne t ne r, added]
  | name nameKind name =>
      refine h.of_same ?_ ?_
      · cases kind <;> rfl
      · rw [added, vocabulary_enter_name, added]
        cases kind <;> cases nameKind <;> rfl

theorem Keeps.enterInto_other (h : t.Keeps p kind)
    (other : ∀ entry ∈ item.entries, ∀ r, entry ≠ .string kind r) :
    (item.enterInto t).Keeps p kind := by
  unfold Item.enterInto
  generalize item.entries = entries at other
  induction entries generalizing t with
  | nil => exact h
  | cons entry entries ih =>
      obtain ⟨first, rest⟩ := List.forall_mem_cons.1 other
      exact ih (h.enter_other first) rest

/-! ## Items -/

theorem admits_of_nonIdentifying {value text : String}
    (h : t.nonIdentifying c kind value = .literal text true) :
    c.policy.admits (.strings kind) text (t.taken kind) = true := by
  unfold nonIdentifying at h
  dsimp only at h
  split at h
  · cases h
  · injection h with same add
    rw [← same]
    exact (Bool.and_eq_true_iff.1 add).2

/-- Content asks for an entry only where the policy admits it; packed content never does. -/
theorem admits_of_represent? {content : Content} {text : String}
    (h : t.represent? c kind content = .ok (some (.literal text true))) :
    c.policy.admits (.strings kind) text (t.taken kind) = true := by
  unfold represent? at h
  cases content with
  | text characters =>
      dsimp only at h
      split at h
      · cases h
      · exact admits_of_nonIdentifying (Option.some.inj (Except.ok.inj h))
  | restricted id characters =>
      dsimp only at h
      split at h
      · cases h
      · split at h <;> cases h
  | typed id value =>
      dsimp only at h
      split at h
      · split at h <;> cases h
      · cases h
  | undecoded packing id octets => cases h

/-- Content is one entry, which is admitted if it is made. -/
theorem Keeps.enterInto_content (h : t.Keeps c.policy kind) (counted : kind.isCounted = true)
    {written : StringKind} (one : item.entries = [.string written r])
    (admitted : ∀ text, r = .literal text true →
      c.policy.admits (.strings written) text (t.taken written) = true) :
    (item.enterInto t).Keeps c.policy kind := by
  by_cases same : kind = written
  · subst same
    rw [Item.enterInto_single one]
    rcases t.enter_string_cases kind r with ⟨text, rfl⟩ | unchanged
    · exact h.enter_literal counted (admitted text rfl)
    · rwa [unchanged]
  · refine h.enterInto_other ?_
    intro entry member r' eq
    rw [one] at member
    cases (List.mem_singleton.1 member).symm.trans eq
    exact same rfl

end Tables

namespace Item

/-- None of the entries is made in a table whose text is counted. -/
def IsUncounted (item : Item) : Prop := ∀ entry ∈ item.entries, entry.isCounted = false

variable {c : Codec} {t : Tables} {item : Item} {nameKind : NameKind} {call : Call}

theorem isUncounted_of_entries {e : Emission} {entries : List Entry}
    (uncounted : ∀ entry ∈ entries, entry.isCounted = false)
    (made : ofEmission e entries = .ok item) : item.IsUncounted := by
  rwa [IsUncounted, (ofEmission_eq_ok made).2]

theorem uncounted_part {kind : StringKind} (uncounted : kind.isCounted = false)
    (part? : Option Representation) :
    ∀ entry ∈ part?.toList.map (Entry.string kind), entry.isCounted = false := by
  intro entry member
  obtain ⟨part, -, rfl⟩ := List.mem_map.1 member
  exact uncounted

theorem isUncounted_ofNewName {name : QualifiedName} {localName : Representation}
    (made : ofNewName t nameKind name localName = .ok item) : item.IsUncounted := by
  refine isUncounted_of_entries (List.forall_mem_append.2 ⟨?_, ?_⟩) made
  · exact List.forall_mem_append.2 ⟨uncounted_part rfl _, uncounted_part rfl _⟩
  · simp [Entry.isCounted, StringKind.isCounted]

theorem isUncounted_ofName {reference : NameReference}
    (made : ofName t nameKind reference = .ok item) : item.IsUncounted := by
  unfold ofName at made
  cases reference with
  | named name =>
      dsimp only at made
      split at made
      · exact isUncounted_of_entries (List.forall_mem_nil _) made
      · exact isUncounted_ofNewName made
  | indexed index =>
      dsimp only at made
      split at made
      · exact isUncounted_of_entries (List.forall_mem_nil _) made
      · cases made
  | localIndexed nsPrefix namespaceName index =>
      dsimp only at made
      split at made
      · cases made
      · split at made
        · cases made
        · exact isUncounted_ofNewName made

/-- Only values and characters are text that is counted. -/
theorem isUncounted_of_item? (made : call.item? c t = .ok (some item))
    (other : call.content? = none) : item.IsUncounted := by
  cases call with
  | startDocument header =>
      exact isUncounted_of_entries (uncounted_part rfl _) (Call.made_of_map_some made)
  | declare nsPrefix namespaceName =>
      refine isUncounted_of_entries ?_ (Call.made_of_map_some made)
      exact List.forall_mem_append.2 ⟨uncounted_part rfl _, uncounted_part rfl _⟩
  | elementName reference => exact isUncounted_ofName (Call.made_of_map_some made)
  | attributeName reference => exact isUncounted_ofName (Call.made_of_map_some made)
  | comment text =>
      exact isUncounted_of_entries (uncounted_part rfl (some _)) (Call.made_of_map_some made)
  | instruction target data =>
      refine isUncounted_of_entries ?_ (Call.made_of_map_some made)
      simp [Entry.isCounted, StringKind.isCounted]
  | attributeValue | characters => cases other
  | initiate | mark | startDeclarations | endDeclarations | startAttributes | endStartElement
  | endElement => cases made

end Item

namespace Tables

variable {kind : StringKind} {t : Tables} {c : Codec} {item : Item} {call : Call}

/-- Whatever a call writes, its entries are made in keeping with the policy. -/
theorem Keeps.enterInto_item (h : t.Keeps c.policy kind) (counted : kind.isCounted = true)
    (made : call.item? c t = .ok (some item)) : (item.enterInto t).Keeps c.policy kind := by
  cases given : call.content? with
  | none =>
      refine h.enterInto_other ?_
      rintro _ member r rfl
      have uncounted := Item.isUncounted_of_item? made given _ member
      cases counted.symm.trans uncounted
  | some content =>
      cases call with
      | attributeValue value =>
          obtain ⟨r?, represented, made⟩ := Item.ofValue_eq_ok (Call.made_of_map_some made)
          refine h.enterInto_content counted (Item.ofEmission_eq_ok made).2 ?_
          rintro text same
          cases r? with
          | none => exact admits_of_nonIdentifying same
          | some r =>
              cases same
              exact admits_of_represent? represented
      | characters content =>
          obtain ⟨r, represented, made⟩ := Item.ofCharacters?_eq_some made
          refine h.enterInto_content counted (Item.ofEmission_eq_ok made).2 ?_
          rintro text rfl
          exact admits_of_represent? represented
      | _ => cases given

end Tables

/-! ## Calls -/

namespace Writer

variable {c : Codec} {call : Call} {w : Writer}

theorem tables_after_handOver (w : Writer) : (after handOver w).tables = w.tables := by
  unfold after handOver
  by_cases kept : (w.mark?.isSome || w.buffer.size < blockSize) = true
  · rw [if_pos kept]
  · rw [if_neg kept]
    cases w.sink.write w.buffer <;> rfl

theorem tables_after_enter (entries : List Entry) (w : Writer) :
    (after (enter entries) w).tables = w.tables ∨
      (after (enter entries) w).tables = entries.foldl .enter w.tables := by
  unfold after enter
  cases entries.findSome? w.tables.conflict? with
  | some cause => exact .inl rfl
  | none => exact .inr rfl

/-- An item makes all of its entries or none. -/
theorem tables_after_write (item : Item) (w : Writer) :
    (after (write item) w).tables = w.tables ∨
      (after (write item) w).tables = item.enterInto w.tables := by
  have handed : (after handOver (w.settle.put item.octets)).tables = w.tables := by
    rw [tables_after_handOver, settle_eq]
    rfl
  rw [after, write_eq]
  cases put : handOver (w.settle.put item.octets) with
  | error cause u =>
      rw [after_of_error put] at handed
      rw [bind_of_error put]
      exact .inl handed
  | ok done u =>
      rw [after_of_ok put] at handed
      rw [bind_of_ok put]
      have entered := tables_after_enter item.entries u
      rwa [handed] at entered

/-- The tables that a call leaves are those before it, but for the entries of its item. -/
def MakesEntries (c : Codec) (call : Call) (t u : Tables) : Prop :=
  u = t ∨ ∃ item, call.item? c t = .ok (some item) ∧ u = item.enterInto t

theorem makesEntries_of_write {item : Item} (made : call.item? c w.tables = .ok (some item)) :
    MakesEntries c call w.tables (after (write item) w).tables := by
  rcases tables_after_write item w with same | entered
  · exact .inl same
  · exact .inr ⟨item, made, entered⟩

theorem makesEntries_carryOut (c : Codec) (call : Call) (w : Writer) :
    MakesEntries c call w.tables (after (carryOut c call) w).tables := by
  have new {make : Writer → Except CodecError Item}
      (same : call.item? c w.tables = (make w).map some) :
      MakesEntries c call w.tables (after (writeNew make) w).tables := by
    unfold after writeNew
    cases made : make w with
    | ok item => exact makesEntries_of_write (by rw [same, made]; rfl)
    | error cause => exact .inl rfl
  cases call with
  | startDocument | declare | elementName | attributeName | attributeValue | comment
  | instruction => exact new rfl
  | initiate | startDeclarations | endDeclarations => exact .inl rfl
  | mark =>
      refine .inl ?_
      change w.settle.tables = w.tables
      rw [settle_eq]
  | startAttributes =>
      refine .inl ?_
      change w.announceAttributes.tables = w.tables
      rw [announceAttributes_eq]
  | endStartElement =>
      refine .inl ((tables_after_handOver _).trans ?_)
      change (if w.stage = .attributes then w.terminate else w).tables = w.tables
      split
      · rw [terminate_eq]
      · rfl
  | characters content =>
      unfold after carryOut
      dsimp only
      cases made : Item.ofCharacters? c w.tables content with
      | ok item? =>
          cases item? with
          | none => exact .inl rfl
          | some item => exact makesEntries_of_write made
      | error cause => exact .inl rfl
  | endElement =>
      refine .inl ((tables_after_handOver _).trans ?_)
      change w.terminate.tables = w.tables
      rw [terminate_eq]

theorem makesEntries_perform (c : Codec) (call : Call) (w : Writer) :
    MakesEntries c call w.tables (after (perform c call) w).tables := by
  have carried := makesEntries_carryOut c call w
  cases performed : perform c call w with
  | ok reply w' =>
      obtain ⟨-, u, done, rfl⟩ := perform_eq_ok performed
      rw [after_of_ok done] at carried
      rwa [after_of_ok performed]
  | error cause w' =>
      rw [after_of_error performed]
      rcases perform_error_cases performed with rfl | rfl | failed
      · exact .inl rfl
      · exact .inl rfl
      · rwa [after_of_error failed] at carried

end Writer

/-! ## Sessions -/

namespace Session

variable {c : Codec} {s : Session} {kind : StringKind}

theorem writer_act_call (s : Session) (call : Call) :
    (s.act c (.call call)).writer = Writer.after (Writer.perform c call) s.writer := by
  unfold act Writer.after
  dsimp only
  cases Writer.perform c call s.writer <;> rfl

theorem keeps_start (c : Codec) (sink : Sink) (p : IndexingPolicy) (kind : StringKind) :
    (c.session sink).writer.tables.Keeps p kind := by
  have untouched : c.startingVocabulary.reset = c.startingVocabulary := by
    unfold Codec.startingVocabulary Vocabulary.forDocument
    cases c.initial? with
    | some shared => exact shared.reset_eq
    | none => rfl
  have added : (c.session sink).writer.tables.added kind = [] := by
    change (c.startingVocabulary.strings kind).added.toList = []
    rw [← untouched]
    cases kind <;> rfl
  refine ⟨?_, ?_⟩
  · rw [added]
    cases kind <;> rfl
  · rw [added]
    rfl

theorem keeps_act (h : s.writer.tables.Keeps c.policy kind) (counted : kind.isCounted = true)
    (action : Action) : (s.act c action).writer.tables.Keeps c.policy kind := by
  cases action with
  | call call =>
      rw [writer_act_call]
      rcases Writer.makesEntries_perform c call s.writer with same | ⟨item, made, entered⟩
      · rwa [same]
      · rw [entered]
        exact h.enterInto_item counted made
  | reserveName nameKind =>
      refine h.of_same ?_ ?_
      · cases kind <;> rfl
      · cases kind <;> cases nameKind <;> rfl
  | reserveLocalName =>
      refine h.of_same ?_ ?_
      · cases kind <;> rfl
      · cases kind <;> rfl

theorem keeps_run (h : s.writer.tables.Keeps c.policy kind) (counted : kind.isCounted = true)
    (actions : List Action) : (s.run c actions).writer.tables.Keeps c.policy kind := by
  induction actions generalizing s with
  | nil => exact h
  | cons action actions ih => exact ih (keeps_act h counted action)

/-- Whatever the policy, the counts are right at every point of a session, and every attribute
value and chunk that was added was admitted at the size of those before it. -/
theorem keeps_session (c : Codec) (sink : Sink) (actions : List Action) (kind : StringKind)
    (counted : kind.isCounted = true) :
    ((c.session sink).run c actions).writer.tables.Keeps c.policy kind :=
  keeps_run (keeps_start c sink c.policy kind) counted actions

/-- Under a policy by length, the count of a session is at every point the size of the chunks that
it has added, and within the limit. These chunks are of suitable length, and so are the attribute
values that were added. -/
theorem chunkOctets_of_run (c : Codec) (limits : Config) (policy : c.policy = .byLength limits)
    (sink : Sink) (actions : List Action) :
    let t := ((c.session sink).run c actions).writer.tables
    let chunks := t.vocabulary.characterChunks.added.toList
    let values := t.vocabulary.attributeValues.added.toList
    t.chunkOctets = textSize chunks ∧
      t.chunkOctets ≤ limits.chunkMemoryLimit ∧
      (∀ text ∈ chunks, limits.characterChunks.min ≤ text.length ∧
        text.length < limits.characterChunks.max) ∧
      ∀ text ∈ values, limits.attributeValues.min ≤ text.length ∧
        text.length < limits.attributeValues.max := by
  intro t chunks values
  obtain ⟨counted, admitted⟩ := keeps_session c sink actions .characterChunk rfl
  obtain ⟨-, admitted_values⟩ := keeps_session c sink actions .attributeValue rfl
  have counted : t.chunkOctets = textSize chunks := counted
  rw [policy] at admitted admitted_values
  obtain ⟨bound, lengths⟩ :=
    IndexingPolicy.within_of_admitsAll_chunks admitted (Nat.zero_le _)
  rw [Nat.zero_add] at bound
  refine ⟨counted, counted ▸ bound, ?_, ?_⟩
  · intro text member
    exact LengthRange.contains_iff.1 (lengths text member)
  · intro text member
    exact LengthRange.contains_iff.1
      (IndexingPolicy.length_of_admitsAll_values admitted_values text member)

/-- A session that comes to the content of an element. -/
def contentActions : List Action :=
  [.call (.startDocument {}), .call .initiate, .call .mark, .call (.elementName (.indexed 0)),
    .call .endStartElement]

/-- The default policy admits a chunk of three letters, which is counted. -/
theorem chunkOctets_of_run_abc :
    let t := ((oneElementCodec.session {}).run oneElementCodec
      (contentActions ++ [.call (.characters (.text "abc"))])).writer.tables
    t.vocabulary.characterChunks.added.toList = ["abc"] ∧ t.chunkOctets = 3 ∧
      3 ≤ oneElementCodec.config.chunkMemoryLimit := by
  intro t
  let w := ((oneElementCodec.session {}).run oneElementCodec contentActions).writer
  have isNew : (w.tables.vocabulary.strings .characterChunk).indexOf? "abc" = none :=
    Table.indexOf?_eq_none.2 ⟨Roster.indexOf?_eq_none.2 nofun, Roster.indexOf?_eq_none.2 nofun⟩
  have literal : w.tables.nonIdentifying oneElementCodec .characterChunk "abc" =
      .literal "abc" true := by
    simp only [Tables.nonIdentifying, Table.wireIndex?, isNew]
    rfl
  have made : (Call.characters (.text "abc")).item? oneElementCodec w.tables =
      .ok (some ⟨[0x92, 0x00, 0x61, 0x62, 0x63],
        [.string .characterChunk (.literal "abc" true)]⟩) := by
    have represented : w.tables.represent? oneElementCodec .characterChunk (.text "abc") =
        .ok (some (.literal "abc" true)) := by
      rw [← literal]
      rfl
    rw [Call.item?, Item.ofCharacters?, represented]
    rfl
  have added : t.vocabulary.characterChunks.added.toList = ["abc"] := by
    obtain ⟨reply, w', performed, entered⟩ := Writer.perform_of_item? rfl rfl made
    have last : t = w'.tables := by
      rw [← Writer.after_of_ok performed, ← writer_act_call]
      rfl
    have isOpen : ¬(w.tables.vocabulary.strings .characterChunk).isFull = true := by decide
    have absorbed : (Tables.absorb (w.tables.vocabulary.strings .characterChunk) "abc").2 =
        (w.tables.vocabulary.strings .characterChunk).insert "abc" isNew := by
      rw [Tables.absorb, if_neg isOpen, dif_pos isNew]
    rw [last, entered, Item.enterInto_single rfl]
    refine (Tables.added_enter_literal w.tables .characterChunk "abc").trans ?_
    rw [absorbed]
    exact Roster.toList_push (Table.indexOf?_eq_none.1 isNew).2
  obtain ⟨counted, bound, -⟩ :=
    chunkOctets_of_run oneElementCodec oneElementCodec.config rfl {}
      (contentActions ++ [.call (.characters (.text "abc"))])
  have three : t.chunkOctets = 3 := by
    refine Eq.trans counted ?_
    rw [added]
    rfl
  exact ⟨added, three, three ▸ bound⟩

end Session

end BinaryXml
