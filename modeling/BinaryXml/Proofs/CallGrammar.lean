import BinaryXml.Proofs.EncoderCalls
import BinaryXml.Proofs.Nesting

/-!
# The grammar of calls

The calls of a document, written down as a grammar. The writer itself knows only a stage and the
number of open elements. The two agree: the calls that are in turn are those that continue the
calls made so far towards a sentence of the grammar.
-/

namespace BinaryXml

/-- What may be asked of a writer. -/
inductive Request
  | call (call : Call)
  | endDocument

def Request.make (c : Codec) : Request → Writing Unit
  | .call asked => do
    let _ ← Writer.perform c asked
  | .endDocument => Writer.endDocument

/-! ## Sentences -/

namespace CallGrammar

/-- `( attributeName attributeValue )*` -/
inductive Attributes : List Call → Prop
  | nil : Attributes []
  | cons (name : NameReference) (value : Content) {rest : List Call} (others : Attributes rest) :
      Attributes (.attributeName name :: .attributeValue value :: rest)

/-- `[ startAttributes ( attributeName attributeValue )* ]` -/
inductive AttributePart : List Call → Prop
  | absent : AttributePart []
  | present {attributes : List Call} (all : Attributes attributes) :
      AttributePart (.startAttributes :: attributes)

/-- `declare* endDeclarations` -/
inductive Declarations : List Call → Prop
  | last : Declarations [.endDeclarations]
  | cons (nsPrefix namespaceName : String) {rest : List Call} (others : Declarations rest) :
      Declarations (.declare nsPrefix namespaceName :: rest)

/-- `[ startDeclarations declare* endDeclarations ]` -/
inductive DeclarationPart : List Call → Prop
  | absent : DeclarationPart []
  | present {declarations : List Call} (all : Declarations declarations) :
      DeclarationPart (.startDeclarations :: declarations)

/-- `mark [ declarations ] elementName [ attributes ] endStartElement` -/
inductive Start : List Call → Prop
  | intro {declarations attributes : List Call} (declared : DeclarationPart declarations)
      (name : NameReference) (given : AttributePart attributes) :
      Start (.mark :: declarations ++ .elementName name :: attributes ++ [.endStartElement])

/-- Elements end with `endElement`. Inside of one there are characters, with a content that is
`listed`. -/
def nesting (listed : Content → Prop) : Nesting Call where
  start := Start
  stop := .endElement
  leaf
    | _, .comment _ => True
    | _, .instruction _ _ => True
    | true, .characters content => listed content
    | _, _ => False

/-- `startDocument initiate items endDocument` -/
inductive Sentence (listed : Content → Prop) : List Request → Prop
  | intro (header : DocumentHeader) {body : List Call}
      (items : (nesting listed).Items false body) :
      Sentence listed ((Call.startDocument header :: .initiate :: body).map .call ++ [.endDocument])

/-- Any content may be written, also one that was encoded elsewhere. -/
def anyContent (_ : Content) : Prop := True

/-! ## Calls in turn -/

/-- The calls are in turn one after the other, and behind them the document may end. -/
def Completes : Stage → Nat → List Call → Prop
  | stage, depth, [] => stage = .content ∧ depth = 0
  | stage, depth, call :: rest =>
    call.isAllowed stage depth = true ∧
      Completes call.stageAfter (Writer.depthAfter depth call) rest

variable {depth : Nat} {calls rest : List Call}

theorem completes_attributes (h : Attributes calls) (after : Completes .attributes depth rest) :
    Completes .attributes depth (calls ++ rest) := by
  induction h with
  | nil => exact after
  | cons name value _ ih => exact ⟨rfl, rfl, ih⟩

theorem completes_attributePart (h : AttributePart calls)
    (after : Completes .content (depth + 1) rest) :
    Completes .named depth (calls ++ .endStartElement :: rest) := by
  cases h with
  | absent => exact ⟨rfl, after⟩
  | present all => exact ⟨rfl, completes_attributes all ⟨rfl, after⟩⟩

theorem completes_declarations (h : Declarations calls) (after : Completes .declared depth rest) :
    Completes .declaring depth (calls ++ rest) := by
  induction h with
  | last => exact ⟨rfl, after⟩
  | cons nsPrefix namespaceName _ ih => exact ⟨rfl, ih⟩

theorem completes_start (h : Start calls) (after : Completes .content (depth + 1) rest) :
    Completes .content depth (calls ++ rest) := by
  cases h with
  | @intro declarations attributes declared name given =>
      have named : Completes .named depth (attributes ++ .endStartElement :: rest) :=
        completes_attributePart given after
      simp only [List.cons_append, List.append_assoc, List.nil_append]
      cases declared with
      | absent => exact ⟨rfl, rfl, named⟩
      | present all => exact ⟨rfl, rfl, completes_declarations all ⟨rfl, named⟩⟩

theorem completes_items {listed : Content → Prop} {inside : Bool}
    (h : (nesting listed).Items inside calls) (opened : inside = true → 0 < depth)
    (after : Completes .content depth rest) : Completes .content depth (calls ++ rest) := by
  induction h generalizing depth rest with
  | nil => exact after
  | @leaf inside call others isLeaf _ ih =>
      have others := ih opened after
      cases call with
      | comment | instruction => exact ⟨rfl, others⟩
      | characters content =>
          cases inside with
          | true => exact ⟨by simp [Call.isAllowed, opened rfl], others⟩
          | false => exact isLeaf.elim
      | _ => cases inside <;> exact isLeaf.elim
  | @element inside first inner others isStart _ _ inner_ih others_ih =>
      -- The content is read one level deeper, where `endElement` is in turn.
      have stopped : Completes .content (depth + 1) (.endElement :: (others ++ rest)) :=
        ⟨by simp [Call.isAllowed], others_ih opened after⟩
      have whole := completes_start isStart (inner_ih (fun _ => Nat.succ_pos depth) stopped)
      simpa [nesting] using whole

/-! ## What is left of a sentence -/

/-- The rest of the start of an element, and what closes the open elements behind it. -/
def StartRest (first : List Call → Prop) (depth : Nat) (calls : List Call) : Prop :=
  ∃ start body, first start ∧ (nesting anyContent).Closing (depth + 1) body ∧
    calls = start ++ body

/-- What may be left of the calls of a sentence at a stage of the writer. -/
def Rest : Stage → Nat → List Call → Prop
  | .idle, depth, calls =>
    ∃ header body, (nesting anyContent).Closing depth body ∧
      calls = .startDocument header :: .initiate :: body
  | .started, depth, calls =>
    ∃ body, (nesting anyContent).Closing depth body ∧ calls = .initiate :: body
  | .content, depth, calls => (nesting anyContent).Closing depth calls
  | .marked, depth, calls => StartRest (fun start => Start (.mark :: start)) depth calls
  | .declaring, depth, calls =>
    StartRest (fun start => ∃ declarations name attributes, Declarations declarations ∧
      AttributePart attributes ∧
      start = declarations ++ .elementName name :: attributes ++ [.endStartElement]) depth calls
  | .declared, depth, calls =>
    StartRest (fun start => ∃ name attributes, AttributePart attributes ∧
      start = .elementName name :: attributes ++ [.endStartElement]) depth calls
  | .named, depth, calls =>
    StartRest (fun start => ∃ attributes, AttributePart attributes ∧
      start = attributes ++ [.endStartElement]) depth calls
  | .attributes, depth, calls =>
    StartRest (fun start => ∃ attributes, Attributes attributes ∧
      start = attributes ++ [.endStartElement]) depth calls
  | .value, depth, calls =>
    StartRest (fun start => ∃ value attributes, Attributes attributes ∧
      start = .attributeValue value :: attributes ++ [.endStartElement]) depth calls
  | .poisoned, _, _ => False

theorem startRest_cons {first first' : List Call → Prop} {call : Call}
    (step : ∀ start, first start → first' (call :: start)) (h : StartRest first depth rest) :
    StartRest first' depth (call :: rest) := by
  obtain ⟨start, body, isStart, closing, rfl⟩ := h
  exact ⟨call :: start, body, step start isStart, closing, rfl⟩

theorem rest_mark (h : Rest .marked depth rest) : Rest .content depth (.mark :: rest) := by
  obtain ⟨start, body, isStart, closing, rfl⟩ := h
  exact closing.append_start isStart

theorem rest_startDeclarations (h : Rest .declaring depth rest) :
    Rest .marked depth (.startDeclarations :: rest) := by
  refine startRest_cons ?_ h
  rintro _ ⟨declarations, name, attributes, all, given, rfl⟩
  exact .intro (.present all) name given

theorem rest_declare (nsPrefix namespaceName : String) (h : Rest .declaring depth rest) :
    Rest .declaring depth (.declare nsPrefix namespaceName :: rest) := by
  refine startRest_cons ?_ h
  rintro _ ⟨declarations, name, attributes, all, given, rfl⟩
  exact ⟨_, name, attributes, .cons nsPrefix namespaceName all, given, rfl⟩

theorem rest_endDeclarations (h : Rest .declared depth rest) :
    Rest .declaring depth (.endDeclarations :: rest) := by
  refine startRest_cons ?_ h
  rintro _ ⟨name, attributes, given, rfl⟩
  exact ⟨_, name, attributes, .last, given, rfl⟩

theorem rest_elementName_marked (name : NameReference) (h : Rest .named depth rest) :
    Rest .marked depth (.elementName name :: rest) := by
  refine startRest_cons ?_ h
  rintro _ ⟨attributes, given, rfl⟩
  exact .intro .absent name given

theorem rest_elementName_declared (name : NameReference) (h : Rest .named depth rest) :
    Rest .declared depth (.elementName name :: rest) := by
  refine startRest_cons ?_ h
  rintro _ ⟨attributes, given, rfl⟩
  exact ⟨name, attributes, given, rfl⟩

theorem rest_startAttributes (h : Rest .attributes depth rest) :
    Rest .named depth (.startAttributes :: rest) := by
  refine startRest_cons ?_ h
  rintro _ ⟨attributes, all, rfl⟩
  exact ⟨_, .present all, rfl⟩

theorem rest_attributeName (name : NameReference) (h : Rest .value depth rest) :
    Rest .attributes depth (.attributeName name :: rest) := by
  refine startRest_cons ?_ h
  rintro _ ⟨value, attributes, all, rfl⟩
  exact ⟨_, .cons name value all, rfl⟩

theorem rest_attributeValue (value : Content) (h : Rest .attributes depth rest) :
    Rest .value depth (.attributeValue value :: rest) := by
  refine startRest_cons ?_ h
  rintro _ ⟨attributes, all, rfl⟩
  exact ⟨value, attributes, all, rfl⟩

theorem rest_endStartElement_named (h : Rest .content (depth + 1) rest) :
    Rest .named depth (.endStartElement :: rest) :=
  ⟨[.endStartElement], rest, ⟨[], .absent, rfl⟩, h, rfl⟩

theorem rest_endStartElement_attributes (h : Rest .content (depth + 1) rest) :
    Rest .attributes depth (.endStartElement :: rest) :=
  ⟨[.endStartElement], rest, ⟨[], .nil, rfl⟩, h, rfl⟩

/-- A call in turn in front of what may be left at the stage behind it. -/
theorem rest_cons {stage : Stage} {call : Call} (allowed : call.isAllowed stage depth = true)
    (h : Rest call.stageAfter (Writer.depthAfter depth call) rest) :
    Rest stage depth (call :: rest) := by
  -- Names and the end of a start tag are in turn at two stages, characters and `endElement` only
  -- inside of an element. All other calls have one stage.
  cases call with
  | elementName name =>
      simp only [Call.isAllowed, Bool.or_eq_true, decide_eq_true_eq] at allowed
      rcases allowed with rfl | rfl
      · exact rest_elementName_marked name h
      · exact rest_elementName_declared name h
  | endStartElement =>
      simp only [Call.isAllowed, Bool.or_eq_true, decide_eq_true_eq] at allowed
      rcases allowed with rfl | rfl
      · exact rest_endStartElement_named h
      · exact rest_endStartElement_attributes h
  | characters content =>
      simp only [Call.isAllowed, Bool.and_eq_true, decide_eq_true_eq] at allowed
      obtain ⟨rfl, inside⟩ := allowed
      exact h.cons_leaf (by simp [nesting, anyContent, inside])
  | endElement =>
      simp only [Call.isAllowed, Bool.and_eq_true, decide_eq_true_eq] at allowed
      obtain ⟨rfl, inside⟩ := allowed
      obtain ⟨outer, rfl⟩ := Nat.exists_eq_add_one.2 inside
      exact h.close
  | startDocument header =>
      cases of_decide_eq_true allowed
      obtain ⟨body, closing, rfl⟩ := h
      exact ⟨header, body, closing, rfl⟩
  | initiate =>
      cases of_decide_eq_true allowed
      exact ⟨rest, h, rfl⟩
  | mark =>
      cases of_decide_eq_true allowed
      exact rest_mark h
  | startDeclarations =>
      cases of_decide_eq_true allowed
      exact rest_startDeclarations h
  | declare nsPrefix namespaceName =>
      cases of_decide_eq_true allowed
      exact rest_declare nsPrefix namespaceName h
  | endDeclarations =>
      cases of_decide_eq_true allowed
      exact rest_endDeclarations h
  | startAttributes =>
      cases of_decide_eq_true allowed
      exact rest_startAttributes h
  | attributeName name =>
      cases of_decide_eq_true allowed
      exact rest_attributeName name h
  | attributeValue value =>
      cases of_decide_eq_true allowed
      exact rest_attributeValue value h
  | comment text | instruction target data =>
      cases of_decide_eq_true allowed
      exact h.cons_leaf (by cases decide (0 < depth) <;> exact trivial)

theorem rest_of_completes {stage : Stage} (h : Completes stage depth calls) :
    Rest stage depth calls := by
  induction calls generalizing stage depth with
  | nil =>
      obtain ⟨rfl, rfl⟩ := h
      exact Nesting.closing_nil
  | cons call rest ih => exact rest_cons h.1 (ih h.2)

/-- The sentences are the lists of calls in turn that the end of the document may follow. -/
theorem sentence_iff {sentence : List Request} :
    Sentence anyContent sentence ↔
      ∃ calls, Completes .idle 0 calls ∧ sentence = calls.map .call ++ [.endDocument] := by
  constructor
  · intro h
    cases h with
    | @intro header body items =>
        have whole : Completes .content 0 (body ++ []) := completes_items items nofun ⟨rfl, rfl⟩
        rw [List.append_nil] at whole
        exact ⟨.startDocument header :: .initiate :: body, ⟨rfl, rfl, whole⟩, rfl⟩
  · rintro ⟨calls, completes, rfl⟩
    obtain ⟨header, body, closing, rfl⟩ := rest_of_completes completes
    exact .intro header (Nesting.items_of_closing closing)

/-! ## Every stage leads to a sentence -/

theorem exists_completes_content (depth : Nat) : ∃ calls, Completes .content depth calls := by
  induction depth with
  | zero => exact ⟨[], rfl, rfl⟩
  | succ depth ih =>
      obtain ⟨calls, completes⟩ := ih
      exact ⟨.endElement :: calls, by simp [Call.isAllowed], completes⟩

theorem exists_completes_named (depth : Nat) : ∃ calls, Completes .named depth calls := by
  obtain ⟨calls, completes⟩ := exists_completes_content (depth + 1)
  exact ⟨.endStartElement :: calls, rfl, completes⟩

theorem exists_completes_attributes (depth : Nat) : ∃ calls, Completes .attributes depth calls := by
  obtain ⟨calls, completes⟩ := exists_completes_content (depth + 1)
  exact ⟨.endStartElement :: calls, rfl, completes⟩

theorem exists_completes {stage : Stage} (active : stage ≠ .poisoned) (depth : Nat) :
    ∃ calls, Completes stage depth calls := by
  obtain ⟨content, inContent⟩ := exists_completes_content depth
  obtain ⟨named, afterName⟩ := exists_completes_named depth
  obtain ⟨attributes, inAttributes⟩ := exists_completes_attributes depth
  cases stage with
  | idle => exact ⟨.startDocument {} :: .initiate :: content, rfl, rfl, inContent⟩
  | started => exact ⟨.initiate :: content, rfl, inContent⟩
  | content => exact ⟨content, inContent⟩
  | marked => exact ⟨.elementName (.indexed 0) :: named, rfl, afterName⟩
  | declaring => exact ⟨.endDeclarations :: .elementName (.indexed 0) :: named, rfl, rfl, afterName⟩
  | declared => exact ⟨.elementName (.indexed 0) :: named, rfl, afterName⟩
  | named => exact ⟨named, afterName⟩
  | attributes => exact ⟨attributes, inAttributes⟩
  | value => exact ⟨.attributeValue (.text "") :: attributes, rfl, inAttributes⟩
  | poisoned => exact absurd rfl active

/-! ## Characters in sentences -/

theorem not_characters_of_attributes (h : Attributes calls) (content : Content) :
    .characters content ∉ calls := by
  induction h with
  | nil => simp
  | cons name value _ ih => simp [ih]

theorem not_characters_of_start (h : Start calls) (content : Content) :
    .characters content ∉ calls := by
  cases h with
  | @intro declarations attributes declared name given =>
      have declarations_free : .characters content ∉ declarations := by
        cases declared with
        | absent => simp
        | present all =>
            induction all with
            | last => simp
            | cons _ _ _ ih => simpa using ih
      have attributes_free : .characters content ∉ attributes := by
        cases given with
        | absent => simp
        | present all => simpa using not_characters_of_attributes all content
      simp [declarations_free, attributes_free]

theorem listed_of_items {listed : Content → Prop} {inside : Bool} {content : Content}
    (h : (nesting listed).Items inside calls) (mem : .characters content ∈ calls) :
    listed content := by
  induction h with
  | nil => cases mem
  | @leaf inside call _ isLeaf _ ih =>
      rcases List.mem_cons.1 mem with rfl | later
      · cases inside with
        | true => exact isLeaf
        | false => exact isLeaf.elim
      · exact ih later
  | @element inside first inner others isStart _ _ inner_ih others_ih =>
      simp only [List.mem_append, List.mem_cons, nesting, reduceCtorEq, false_or] at mem
      rcases mem with (start | within) | later
      · exact absurd start (not_characters_of_start isStart content)
      · exact inner_ih within
      · exact others_ih later

/-- The characters in a sentence are all of a listed content. -/
theorem listed_of_sentence {listed : Content → Prop} {sentence : List Request} {content : Content}
    (h : Sentence listed sentence) (mem : .call (.characters content) ∈ sentence) :
    listed content := by
  cases h with
  | intro header items =>
      simp only [List.mem_append, List.mem_map, Request.call.injEq, exists_eq_right, List.mem_cons,
        reduceCtorEq, List.not_mem_nil, or_false, false_or] at mem
      exact listed_of_items items mem

end CallGrammar

end BinaryXml
