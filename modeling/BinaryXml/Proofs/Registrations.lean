import BinaryXml.AlgorithmRegistry
import BinaryXml.Proofs.AlphabetPacking

/-!
# Registrations

Algorithms and alphabets are registered by calls that may fail, in any order and any number of
times. A call that fails changes nothing, so a registry answers for the calls that succeeded, and
these decide which further calls can succeed: an identifier serves once, and an algorithm takes its
URI with it. Thus what is looked up is what was registered, by identifier as well as by URI.
-/

namespace BinaryXml

/-! ## Calls one after another -/

namespace Registration

variable {ρ κ ε : Type} (register : ρ → κ → Except ε ρ)

/-- A call that fails leaves the registry as it was. -/
def settle (r : ρ) (call : κ) : ρ :=
  match register r call with
  | .ok r => r
  | .error _ => r

def run (r : ρ) (calls : List κ) : ρ := calls.foldl (settle register) r

/-- The calls that succeed, in their order. -/
def accepted (r : ρ) : List κ → List κ
  | [] => []
  | call :: calls =>
    match register r call with
    | .ok r => call :: accepted r calls
    | .error _ => accepted r calls

variable {register} {r : ρ} {calls : List κ}

/-- The calls that fail need not have been made. -/
theorem run_accepted : run register r (accepted register r calls) = run register r calls := by
  induction calls generalizing r with
  | nil => rfl
  | cons call calls ih =>
      cases called : register r call with
      | ok r' => simpa [run, accepted, settle, called] using ih (r := r')
      | error cause => simpa [run, accepted, settle, called] using ih (r := r)

/-- What a call that succeeds adds to what a registry holds, all calls that succeed add. -/
theorem holds_run {Holds : ρ → List κ → Prop}
    (step : ∀ {r r' entries call}, Holds r entries → register r call = .ok r' →
      Holds r' (entries ++ [call]))
    {entries : List κ} (holds : Holds r entries) :
    Holds (run register r calls) (entries ++ accepted register r calls) := by
  induction calls generalizing r entries with
  | nil => simpa [run, accepted] using holds
  | cons call calls ih =>
      cases called : register r call with
      | ok r' => simpa [run, accepted, settle, called] using ih (step holds called)
      | error cause => simpa [run, accepted, settle, called] using ih holds

end Registration

/-! ## Algorithms -/

namespace BuiltinAlgorithm

theorem ofId?_id (b : BuiltinAlgorithm) : ofId? b.id = some b := by
  cases b <;> rfl

theorem exists_id {id : UInt8} (h : id ≤ 9) : ∃ b : BuiltinAlgorithm, b.id = id := by
  have all (n : Fin 10) : ∃ b ∈ BuiltinAlgorithm.all, b.id = UInt8.ofNat n := by
    revert n
    decide
  obtain ⟨b, -, same⟩ := all ⟨id.toNat, Nat.lt_succ_of_le h⟩
  exact ⟨b, by rw [same, UInt8.ofNat_toNat]⟩

theorem ofId?_eq_none {id : UInt8} (h : 9 < id) : ofId? id = none :=
  List.getElem?_eq_none h

end BuiltinAlgorithm

namespace AlgorithmRegistry

variable {r r' : AlgorithmRegistry} {id : UInt8} {algorithm : Algorithm}
  {entries : List (UInt8 × Algorithm)}

def call (r : AlgorithmRegistry) (entry : UInt8 × Algorithm) :
    Except AlgorithmError AlgorithmRegistry :=
  r.register entry.1 entry.2

theorem register_eq_ok_iff :
    r.register id algorithm = .ok r' ↔
      32 ≤ id ∧ r.registered.lookup id = none ∧ r.idOfUri? algorithm.uri = none ∧
        r' = ⟨(id, algorithm) :: r.registered⟩ := by
  unfold register
  by_cases reserved : id < 32
  · simp [reserved]
  have free : 32 ≤ id := UInt8.not_lt.1 reserved
  cases r.registered.lookup id with
  | some known => simp [reserved]
  | none =>
      cases r.idOfUri? algorithm.uri with
      | some known => simp [reserved]
      | none => simp [reserved, free, eq_comm]

theorem idOfUri?_cons (entry : UInt8 × Algorithm) (known : List (UInt8 × Algorithm))
    (uri : String) :
    idOfUri? ⟨entry :: known⟩ uri =
      if entry.2.uri = uri then some entry.1 else idOfUri? ⟨known⟩ uri := by
  by_cases same : entry.2.uri = uri <;> simp [idOfUri?, same]

/-- The registry holds these registrations and no others. -/
structure Holds (r : AlgorithmRegistry) (entries : List (UInt8 × Algorithm)) : Prop where
  unreserved : ∀ entry ∈ entries, 32 ≤ entry.1
  nodup_ids : (entries.map (·.1)).Nodup
  nodup_uris : (entries.map (·.2.uri)).Nodup
  lookup_eq_some_iff : ∀ {id algorithm},
    r.registered.lookup id = some algorithm ↔ (id, algorithm) ∈ entries
  idOfUri?_eq_some_iff : ∀ {uri id},
    r.idOfUri? uri = some id ↔ ∃ algorithm, (id, algorithm) ∈ entries ∧ algorithm.uri = uri

theorem holds_empty : Holds {} [] where
  unreserved := nofun
  nodup_ids := List.nodup_nil
  nodup_uris := List.nodup_nil
  lookup_eq_some_iff := by simp
  idOfUri?_eq_some_iff := by simp [idOfUri?]

theorem Holds.lookup_eq_none_iff (h : r.Holds entries) :
    r.registered.lookup id = none ↔ ∀ entry ∈ entries, entry.1 ≠ id := by
  simp only [Option.eq_none_iff_forall_ne_some, ne_eq, h.lookup_eq_some_iff, Prod.forall]
  exact ⟨fun unused _ algorithm mem same => unused algorithm (same ▸ mem),
    fun unused algorithm mem => unused id algorithm mem rfl⟩

theorem Holds.idOfUri?_eq_none_iff (h : r.Holds entries) {uri : String} :
    r.idOfUri? uri = none ↔ ∀ entry ∈ entries, entry.2.uri ≠ uri := by
  simp only [Option.eq_none_iff_forall_ne_some, ne_eq, h.idOfUri?_eq_some_iff, Prod.forall]
  exact ⟨fun unused id algorithm mem same => unused id ⟨algorithm, mem, same⟩,
    fun unused id ⟨algorithm, mem, same⟩ => unused id algorithm mem same⟩

/-- A new registration is found by its identifier and its URI, and the others as before. -/
theorem Holds.register (h : r.Holds entries) {entry : UInt8 × Algorithm}
    (called : r.call entry = .ok r') : r'.Holds (entries ++ [entry]) := by
  obtain ⟨id, algorithm⟩ := entry
  obtain ⟨free, newId, newUri, rfl⟩ := register_eq_ok_iff.1 called
  have unusedId := h.lookup_eq_none_iff.1 newId
  have unusedUri := h.idOfUri?_eq_none_iff.1 newUri
  refine ⟨?_, ?_, ?_, ?_, ?_⟩
  · simpa [or_imp, forall_and] using ⟨fun id algorithm => h.unreserved (id, algorithm), free⟩
  · simpa [List.nodup_append, h.nodup_ids] using unusedId
  · simpa [List.nodup_append, h.nodup_uris] using fun uri id known mem same =>
      same ▸ unusedUri (id, known) mem
  · intro id' algorithm'
    by_cases same : id' = id
    · subst same
      have other : (id', algorithm') ∉ entries := fun mem => unusedId _ mem rfl
      simp [other, eq_comm]
    · simp [List.lookup_cons, beq_false_of_ne same, same, h.lookup_eq_some_iff]
  · intro uri id'
    have both : (∃ known, (id', known) ∈ entries ++ [(id, algorithm)] ∧ known.uri = uri) ↔
        (∃ known, (id', known) ∈ entries ∧ known.uri = uri) ∨ id' = id ∧ algorithm.uri = uri := by
      simp [or_and_right, exists_or, and_assoc]
    rw [idOfUri?_cons, both, ← h.idOfUri?_eq_some_iff]
    by_cases same : algorithm.uri = uri
    · subst same
      simp [newUri, eq_comm]
    · simp [same]

/-- What a registry answers that holds these registrations. -/
structure Answers (r : AlgorithmRegistry) (entries : List (UInt8 × Algorithm)) : Prop where
  /-- No identifier and no URI is registered twice. -/
  nodup_ids : (entries.map (·.1)).Nodup
  nodup_uris : (entries.map (·.2.uri)).Nodup
  register_succeeds_iff : ∀ id algorithm, (∃ r', r.register id algorithm = .ok r') ↔
    32 ≤ id ∧ (∀ entry ∈ entries, entry.1 ≠ id) ∧
      ∀ entry ∈ entries, entry.2.uri ≠ algorithm.uri
  isRegistered_iff : ∀ id, r.isRegistered id = true ↔ ∃ algorithm, r.get id = .ok algorithm
  get_builtin : ∀ id, id ≤ 9 → ∃ b : BuiltinAlgorithm, b.id = id ∧ r.get id = .ok b.algorithm
  get_registered : ∀ id algorithm, 9 < id →
    (r.get id = .ok algorithm ↔ (id, algorithm) ∈ entries)
  get_unknown : ∀ id, 9 < id → (∀ entry ∈ entries, entry.1 ≠ id) →
    r.get id = .error (.unknownAlgorithm id)
  idOfUri?_eq_some_iff : ∀ uri id,
    r.idOfUri? uri = some id ↔ ∃ algorithm, (id, algorithm) ∈ entries ∧ algorithm.uri = uri

theorem get_builtin (r : AlgorithmRegistry) (h : id ≤ 9) :
    ∃ b : BuiltinAlgorithm, b.id = id ∧ r.get id = .ok b.algorithm := by
  obtain ⟨b, rfl⟩ := BuiltinAlgorithm.exists_id h
  exact ⟨b, rfl, by simp [get, find?, BuiltinAlgorithm.ofId?_id]⟩

theorem find?_of_lt (r : AlgorithmRegistry) (h : 9 < id) :
    r.find? id = r.registered.lookup id := by
  rw [find?, BuiltinAlgorithm.ofId?_eq_none h]

theorem Holds.answers (h : r.Holds entries) : r.Answers entries where
  nodup_ids := h.nodup_ids
  nodup_uris := h.nodup_uris
  register_succeeds_iff id algorithm := by
    simp [register_eq_ok_iff, h.lookup_eq_none_iff, h.idOfUri?_eq_none_iff]
  isRegistered_iff id := by
    by_cases builtin : id ≤ 9
    · obtain ⟨b, -, found⟩ := r.get_builtin builtin
      simp [isRegistered, builtin, found]
    · rw [get, r.find?_of_lt (UInt8.not_le.1 builtin)]
      cases known : r.registered.lookup id <;> simp [isRegistered, builtin, known]
  get_builtin id := r.get_builtin
  get_registered id algorithm above := by
    rw [get, r.find?_of_lt above, ← h.lookup_eq_some_iff]
    cases r.registered.lookup id <;> simp
  get_unknown id above unused := by
    rw [get, r.find?_of_lt above, h.lookup_eq_none_iff.2 unused]
  idOfUri?_eq_some_iff _ _ := h.idOfUri?_eq_some_iff

end AlgorithmRegistry

/-! ## Alphabets -/

namespace Alphabet

theorem exists_ofString_iff {characters : String} :
    (∃ a, ofString characters = .ok a) ↔
      2 ≤ characters.toList.length ∧ characters.toList.Nodup := by
  constructor
  · rintro ⟨a, accepted⟩
    rw [← toList_of_ofString accepted]
    exact ⟨a.size_eq_length ▸ a.two_le_size, a.characters.nodup_toList⟩
  · exact fun ⟨long, distinct⟩ => exists_ofString long distinct

theorem toString_of_ofString {characters : String} {a : Alphabet}
    (accepted : ofString characters = .ok a) : a.toString = characters := by
  rw [toString, toList_of_ofString accepted, String.ofList_toList]

end Alphabet

namespace AlphabetRegistry

variable {r r' : AlphabetRegistry} {id : UInt8} {characters : String} {a : Alphabet}
  {entries : List (UInt8 × String)}

def call (r : AlphabetRegistry) (entry : UInt8 × String) :
    Except AlphabetError AlphabetRegistry :=
  r.register entry.1 entry.2

theorem register_eq_ok_iff :
    r.register id characters = .ok r' ↔
      id ≠ 0 ∧ id ≠ 1 ∧ r.registered.lookup id = none ∧
        ∃ a, Alphabet.ofString characters = .ok a ∧ r' = ⟨(id, a) :: r.registered⟩ := by
  unfold register
  by_cases reserved : id = 0 ∨ id = 1
  · rw [if_pos reserved]
    refine iff_of_false nofun ?_
    rintro ⟨notNumeric, notDateTime, -⟩
    exact reserved.elim notNumeric notDateTime
  obtain ⟨notNumeric, notDateTime⟩ := not_or.1 reserved
  rw [if_neg reserved]
  cases r.registered.lookup id with
  | some known => simp
  | none =>
      cases Alphabet.ofString characters with
      | error cause => simp [bind, Except.bind]
      | ok a => simp [notNumeric, notDateTime, bind, Except.bind, pure, Except.pure, eq_comm]

/-- The registry holds alphabets of these characters and no others. -/
structure Holds (r : AlphabetRegistry) (entries : List (UInt8 × String)) : Prop where
  unreserved : ∀ entry ∈ entries, entry.1 ≠ 0 ∧ entry.1 ≠ 1
  nodup_ids : (entries.map (·.1)).Nodup
  lookup_eq_some_iff : ∀ {id characters},
    (r.registered.lookup id).map (·.toString) = some characters ↔ (id, characters) ∈ entries

theorem holds_empty : Holds {} [] where
  unreserved := nofun
  nodup_ids := List.nodup_nil
  lookup_eq_some_iff := by simp

theorem Holds.lookup_eq_none_iff (h : r.Holds entries) :
    r.registered.lookup id = none ↔ ∀ entry ∈ entries, entry.1 ≠ id := by
  rw [← Option.map_eq_none_iff (f := (·.toString))]
  simp only [Option.eq_none_iff_forall_ne_some, ne_eq, h.lookup_eq_some_iff, Prod.forall]
  exact ⟨fun unused _ characters mem same => unused characters (same ▸ mem),
    fun unused characters mem => unused id characters mem rfl⟩

/-- A new alphabet is found by its identifier, and the others as before. -/
theorem Holds.register (h : r.Holds entries) {entry : UInt8 × String}
    (called : r.call entry = .ok r') : r'.Holds (entries ++ [entry]) := by
  obtain ⟨id, characters⟩ := entry
  obtain ⟨notNumeric, notDateTime, newId, a, accepted, rfl⟩ := register_eq_ok_iff.1 called
  have unused := h.lookup_eq_none_iff.1 newId
  refine ⟨?_, ?_, ?_⟩
  · simpa [or_imp, forall_and, notNumeric, notDateTime] using h.unreserved
  · simpa [List.nodup_append, h.nodup_ids] using unused
  · intro id' characters'
    by_cases same : id' = id
    · subst same
      have other : (id', characters') ∉ entries := fun mem => unused _ mem rfl
      simp [other, Alphabet.toString_of_ofString accepted, eq_comm]
    · simp [List.lookup_cons, beq_false_of_ne same, same, h.lookup_eq_some_iff]

/-- What a registry answers that holds alphabets of these characters. -/
structure Answers (r : AlphabetRegistry) (entries : List (UInt8 × String)) : Prop where
  nodup_ids : (entries.map (·.1)).Nodup
  register_succeeds_iff : ∀ id characters, (∃ r', r.register id characters = .ok r') ↔
    id ≠ 0 ∧ id ≠ 1 ∧ (∀ entry ∈ entries, entry.1 ≠ id) ∧
      2 ≤ characters.toList.length ∧ characters.toList.Nodup
  get_numeric : r.get 0 = .ok numericAlphabet
  get_dateTime : r.get 1 = .ok dateTimeAlphabet
  get_registered : ∀ id characters, id ≠ 0 → id ≠ 1 →
    ((∃ a, r.get id = .ok a ∧ a.toString = characters) ↔ (id, characters) ∈ entries)
  get_unknown : ∀ id, id ≠ 0 → id ≠ 1 → (∀ entry ∈ entries, entry.1 ≠ id) →
    r.get id = .error (.unknownAlphabet id)

theorem find?_of_ne (r : AlphabetRegistry) (notNumeric : id ≠ 0) (notDateTime : id ≠ 1) :
    r.find? id = r.registered.lookup id := by
  rw [find?, if_neg notNumeric, if_neg notDateTime]

theorem Holds.answers (h : r.Holds entries) : r.Answers entries where
  nodup_ids := h.nodup_ids
  register_succeeds_iff id characters := by
    simp [register_eq_ok_iff, h.lookup_eq_none_iff, ← Alphabet.exists_ofString_iff]
  get_numeric := rfl
  get_dateTime := rfl
  get_registered id characters notNumeric notDateTime := by
    rw [get, r.find?_of_ne notNumeric notDateTime, ← h.lookup_eq_some_iff]
    cases r.registered.lookup id <;> simp
  get_unknown id notNumeric notDateTime unused := by
    rw [get, r.find?_of_ne notNumeric notDateTime, h.lookup_eq_none_iff.2 unused]

end AlphabetRegistry

namespace Registration

/-- After any calls a registry answers for those that succeeded, and is as if the others had not
been made. -/
theorem answers_run_accepted :
    (∀ calls : List (UInt8 × Algorithm),
      (run AlgorithmRegistry.call {} calls).Answers (accepted AlgorithmRegistry.call {} calls) ∧
        run AlgorithmRegistry.call {} (accepted AlgorithmRegistry.call {} calls) =
          run AlgorithmRegistry.call {} calls) ∧
    ∀ calls : List (UInt8 × String),
      (run AlphabetRegistry.call {} calls).Answers (accepted AlphabetRegistry.call {} calls) ∧
        run AlphabetRegistry.call {} (accepted AlphabetRegistry.call {} calls) =
          run AlphabetRegistry.call {} calls := by
  refine ⟨fun calls => ⟨?_, run_accepted⟩, fun calls => ⟨?_, run_accepted⟩⟩
  · have holds : AlgorithmRegistry.Holds (run AlgorithmRegistry.call {} calls)
        ([] ++ accepted AlgorithmRegistry.call {} calls) :=
      holds_run (fun held => held.register) AlgorithmRegistry.holds_empty
    exact holds.answers
  · have holds : AlphabetRegistry.Holds (run AlphabetRegistry.call {} calls)
        ([] ++ accepted AlphabetRegistry.call {} calls) :=
      holds_run (fun held => held.register) AlphabetRegistry.holds_empty
    exact holds.answers

end Registration

end BinaryXml
