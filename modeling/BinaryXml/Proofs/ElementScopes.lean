import BinaryXml.Event
import BinaryXml.NamespaceScopes

/-!
# Scopes of elements

What the open elements declare determines the scopes. Of several declarations of one prefix in an
element the last one stays in force, and `xml` is never declared anew.
-/

namespace BinaryXml

namespace NamespaceDeclaration

/-- What an element must not declare: `xml` for anything but its own namespace, or `xmlns`. -/
def IsAllowed (d : NamespaceDeclaration) : Prop :=
  (d.nsPrefix = "xml" ↔ d.namespaceName = xmlNamespace) ∧ d.nsPrefix ≠ "xmlns" ∧
    d.namespaceName ≠ xmlnsNamespace

/-- Every document is inside of these. -/
def predeclared : List NamespaceDeclaration :=
  [{ nsPrefix := "xml", namespaceName := xmlNamespace },
    { nsPrefix := "xmlns", namespaceName := xmlnsNamespace }]

/-- Whether a declaration says nothing in view of those after it. -/
def IsHidden (d : NamespaceDeclaration) (later : List NamespaceDeclaration) : Prop :=
  d.nsPrefix = "xml" ∨ ∃ e ∈ later, e.nsPrefix = d.nsPrefix

instance (d : NamespaceDeclaration) (later : List NamespaceDeclaration) :
    Decidable (d.IsHidden later) :=
  inferInstanceAs (Decidable (_ ∨ _))

/-- The declarations that stay in force, latest first. -/
def lasting : List NamespaceDeclaration → List NamespaceDeclaration
  | [] => []
  | d :: later => if d.IsHidden later then lasting later else lasting later ++ [d]

variable {d e : NamespaceDeclaration} {ds : List NamespaceDeclaration}

theorem isHidden_append :
    e.IsHidden (ds ++ [d]) ↔ e.IsHidden ds ∨ d.nsPrefix = e.nsPrefix := by
  simp [IsHidden, or_and_right, exists_or, or_assoc]

theorem mem_of_mem_lasting (h : d ∈ lasting ds) : d ∈ ds ∧ d.nsPrefix ≠ "xml" := by
  induction ds with
  | nil => cases h
  | cons d' later ih =>
      rw [lasting] at h
      split at h
      · obtain ⟨declared, other⟩ := ih h
        exact ⟨List.mem_cons_of_mem _ declared, other⟩
      · next shown =>
          rcases List.mem_append.1 h with after | here
          · obtain ⟨declared, other⟩ := ih after
            exact ⟨List.mem_cons_of_mem _ declared, other⟩
          · cases List.mem_singleton.1 here
            exact ⟨List.mem_cons_self, fun xml => shown (.inl xml)⟩

/-- A new declaration takes the place of an earlier one of its prefix. -/
theorem lasting_append (other : d.nsPrefix ≠ "xml") :
    lasting (ds ++ [d]) = d :: (lasting ds).eraseP fun e => e.nsPrefix = d.nsPrefix := by
  induction ds with
  | nil =>
      have shown : ¬ d.IsHidden [] := by simp [IsHidden, other]
      simp [lasting, shown]
  | cons e later ih =>
      rw [List.cons_append, lasting, lasting]
      by_cases hidden : e.IsHidden later
      · rw [if_pos (isHidden_append.2 (.inl hidden)), if_pos hidden, ih]
      · rw [if_neg hidden, List.eraseP_append]
        by_cases same : d.nsPrefix = e.nsPrefix
        · have absent : ∀ a ∈ lasting later, ¬ decide (a.nsPrefix = d.nsPrefix) = true := by
            intro a after again
            exact hidden (.inr ⟨a, (mem_of_mem_lasting after).1, by simp_all⟩)
          rw [if_pos (isHidden_append.2 (.inr same)), ih, List.eraseP_of_forall_not absent,
            if_neg (by simpa using absent)]
          simp [same]
        · have shown : ¬ e.IsHidden (later ++ [d]) := by
            rw [isHidden_append]
            exact not_or.2 ⟨hidden, same⟩
          rw [if_neg shown, ih, List.cons_append]
          split
          · rfl
          · next none =>
              have absent : ∀ a ∈ lasting later, ¬ decide (a.nsPrefix = d.nsPrefix) = true := by
                simpa using none
              rw [List.eraseP_of_forall_not absent, List.eraseP_of_forall_not]
              simpa using Ne.symm same

theorem lasting_append_xml (xml : d.nsPrefix = "xml") : lasting (ds ++ [d]) = lasting ds := by
  induction ds with
  | nil =>
      have hidden : d.IsHidden [] := .inl xml
      simp [lasting, hidden]
  | cons e later ih =>
      rw [List.cons_append, lasting, lasting, ih]
      by_cases hidden : e.IsHidden later
      · rw [if_pos (isHidden_append.2 (.inl hidden)), if_pos hidden]
      · have shown : ¬ e.IsHidden (later ++ [d]) := by
          rw [isHidden_append]
          exact not_or.2 ⟨hidden, fun same => hidden (.inl (same.symm.trans xml))⟩
        rw [if_neg hidden, if_neg shown]

/-- What stays in force of a prefix is its last declaration. -/
theorem find?_lasting {nsPrefix : String} (other : nsPrefix ≠ "xml") :
    ((lasting ds).find? fun d => d.nsPrefix = nsPrefix) =
      ds.reverse.find? fun d => d.nsPrefix = nsPrefix := by
  induction ds with
  | nil => rfl
  | cons d later ih =>
      rw [lasting, List.reverse_cons, List.find?_append, ← ih]
      split
      · next hidden =>
          by_cases same : d.nsPrefix = nsPrefix
          · rcases hidden with xml | ⟨e, after, again⟩
            · exact absurd (same.symm.trans xml) other
            · have found : (later.reverse.find? fun d => d.nsPrefix = nsPrefix).isSome := by
                rw [List.find?_isSome]
                exact ⟨e, List.mem_reverse.2 after, by simp [again, same]⟩
              rw [← ih] at found
              rw [Option.or_of_isSome found]
          · simp [same]
      · rw [List.find?_append]

end NamespaceDeclaration

/-- What the open elements declare after an event, innermost first. -/
def Event.openedAfter (opened : List (List NamespaceDeclaration)) :
    Event → List (List NamespaceDeclaration)
  | .startElement _ declarations _ => declarations :: opened
  | .endElement => opened.tail
  | _ => opened

open NamespaceDeclaration

/-- The namespace that a prefix stands for in elements with these declarations, innermost first. -/
def namespaceOf (opened : List (List NamespaceDeclaration)) (nsPrefix : String) : String :=
  ((opened.flatMap List.reverse ++ predeclared).find? fun d => d.nsPrefix = nsPrefix).elim ""
    (·.namespaceName)

namespace NamespaceScopes

/-- The bindings that an element makes as the `depth`th open one. -/
def scope (depth : Nat) (ds : List NamespaceDeclaration) : List Binding :=
  (lasting ds).map fun d => ⟨d.nsPrefix, d.namespaceName, depth⟩

def bindingsOf : List (List NamespaceDeclaration) → List Binding
  | [] => initial.bindings
  | ds :: outer => scope (outer.length + 1) ds ++ bindingsOf outer

/-- One scope for each open element, innermost first. -/
def ofElements (opened : List (List NamespaceDeclaration)) : NamespaceScopes where
  bindings := bindingsOf opened
  depth := opened.length

variable {opened outer : List (List NamespaceDeclaration)} {ds : List NamespaceDeclaration}

theorem depth_of_mem_scope {depth : Nat} {b : Binding} (h : b ∈ scope depth ds) :
    b.depth = depth := by
  obtain ⟨d, -, rfl⟩ := List.mem_map.1 h
  rfl

theorem depth_le_of_mem {b : Binding} (h : b ∈ bindingsOf opened) : b.depth ≤ opened.length := by
  induction opened with
  | nil =>
      rcases List.mem_cons.1 h with rfl | h
      · exact Nat.le_refl _
      · cases List.mem_singleton.1 h
        exact Nat.le_refl _
  | cons ds outer ih =>
      rcases List.mem_append.1 h with inner | outside
      · exact Nat.le_of_eq (depth_of_mem_scope inner)
      · exact Nat.le_succ_of_le (ih outside)

/-- A test that all of the first bindings pass and none of the others splits a row where the first
ones end. -/
theorem split_append {inner rest : List Binding} {p : Binding → Bool} (passes : ∀ b ∈ inner, p b)
    (fails : ∀ b ∈ rest, p b = false) :
    (inner ++ rest).takeWhile p = inner ∧ (inner ++ rest).dropWhile p = rest := by
  rw [List.takeWhile_append_of_pos passes, List.dropWhile_append_of_pos passes]
  cases rest with
  | nil => simp
  | cons b bs =>
      have stops := fails b List.mem_cons_self
      simp [stops]

/-- A test for the innermost scope splits the bindings where that scope ends. -/
theorem split_bindings (outer : List (List NamespaceDeclaration))
    (ds : List NamespaceDeclaration) (p : Binding → Bool)
    (inner : ∀ b ∈ scope (outer.length + 1) ds, p b)
    (outside : ∀ b ∈ bindingsOf outer, p b = false) :
    (bindingsOf (ds :: outer)).takeWhile p = scope (outer.length + 1) ds ∧
      (bindingsOf (ds :: outer)).dropWhile p = bindingsOf outer :=
  split_append inner outside

theorem pop_ofElements : (ofElements (ds :: outer)).pop = .ok (ofElements outer) := by
  have split := split_bindings outer ds
    (fun b => decide (outer.length + 1 ≤ b.depth))
    (fun b h => decide_eq_true (Nat.le_of_eq (depth_of_mem_scope h).symm))
    (fun b h => decide_eq_false (Nat.not_le_of_lt (Nat.lt_succ_of_le (depth_le_of_mem h))))
  unfold pop ofElements
  rw [if_neg (by simp)]
  simp only [List.length_cons, split.2, Nat.add_sub_cancel]

theorem declare_eq_ok {s s' : NamespaceScopes} {d : NamespaceDeclaration}
    (h : s.declare d.nsPrefix d.namespaceName = .ok s') : d.IsAllowed := by
  unfold declare at h
  split at h
  · next own =>
      refine ⟨by simp [own], ?_, ?_⟩
      · rw [own.1]; decide
      · rw [own.2]; decide
  · next other =>
      split at h
      · cases h
      · next fixed =>
          split at h
          · cases h
          · next reserved =>
              simp only [not_or] at fixed reserved
              exact ⟨by simp [fixed.1, reserved.1], fixed.2, reserved.2⟩

/-- A declaration that is accepted joins the others of its element. -/
theorem declare_ofElements {s : NamespaceScopes} {d : NamespaceDeclaration}
    (h : (ofElements (ds :: outer)).declare d.nsPrefix d.namespaceName = .ok s) :
    s = ofElements ((ds ++ [d]) :: outer) := by
  have allowed := declare_eq_ok h
  unfold declare at h
  split at h
  · next own =>
      cases h
      simp only [ofElements, bindingsOf, scope, lasting_append_xml own.1, List.length_cons]
  · split at h
    · cases h
    · next fixed =>
        split at h
        · cases h
        · cases h
          have other : d.nsPrefix ≠ "xml" := fun xml => fixed (.inl xml)
          obtain ⟨inner, outside⟩ := split_bindings outer ds
            (fun b => decide (b.depth = (ofElements (ds :: outer)).depth))
            (fun b h => decide_eq_true (depth_of_mem_scope h))
            (fun b h => decide_eq_false (Nat.ne_of_lt (Nat.lt_succ_of_le (depth_le_of_mem h))))
          have joined : scope (outer.length + 1) (ds ++ [d]) =
              ⟨d.nsPrefix, d.namespaceName, outer.length + 1⟩ ::
                (scope (outer.length + 1) ds).eraseP fun b => b.nsPrefix = d.nsPrefix := by
            rw [scope, lasting_append other, List.map_cons, scope, List.eraseP_map]
            rfl
          have whole : ofElements ((ds ++ [d]) :: outer) =
              ⟨⟨d.nsPrefix, d.namespaceName, outer.length + 1⟩ ::
                ((scope (outer.length + 1) ds).eraseP fun b => b.nsPrefix = d.nsPrefix) ++
                  bindingsOf outer, outer.length + 1⟩ := by
            rw [ofElements, bindingsOf, joined]
            rfl
          rw [whole, ← inner, ← outside]
          rfl

theorem resolve?_xml (opened : List (List NamespaceDeclaration)) :
    (ofElements opened).resolve? "xml" = some xmlNamespace := by
  have found : (bindingsOf opened).find? (fun b => b.nsPrefix = "xml") =
      some ⟨"xml", xmlNamespace, 0⟩ := by
    induction opened with
    | nil => rfl
    | cons ds outer ih =>
        rw [bindingsOf, List.find?_append, ih, List.find?_eq_none.2]
        · rfl
        · intro b inner
          obtain ⟨d, lasts, rfl⟩ := List.mem_map.1 inner
          simpa using (mem_of_mem_lasting lasts).2
  rw [resolve?, ofElements, found]
  rfl

theorem resolve?_of_ne_xml {nsPrefix : String} (other : nsPrefix ≠ "xml")
    (opened : List (List NamespaceDeclaration)) :
    (ofElements opened).resolve? nsPrefix =
      ((opened.flatMap List.reverse ++ predeclared).find? fun d => d.nsPrefix = nsPrefix).map
        (·.namespaceName) := by
  rw [resolve?, ofElements]
  induction opened with
  | nil =>
      by_cases fixed : nsPrefix = "xmlns"
      · rw [fixed]
        rfl
      · simp [bindingsOf, initial, predeclared, Ne.symm other, Ne.symm fixed]
  | cons ds outer ih =>
      dsimp only at ih ⊢
      rw [bindingsOf, List.flatMap_cons, List.append_assoc, List.find?_append, List.find?_append,
        ← find?_lasting other, scope, List.find?_map, Option.map_or, ih, Option.map_or,
        Option.map_map]
      rfl

/-- A prefix is looked up in the declarations from the latest to the earliest. -/
theorem uriOf_ofElements (allowed : ∀ ds ∈ opened, ∀ d ∈ ds, d.IsAllowed) (nsPrefix : String) :
    (ofElements opened).uriOf nsPrefix = namespaceOf opened nsPrefix := by
  by_cases xml : nsPrefix = "xml"
  · rw [xml, uriOf, resolve?_xml, namespaceOf]
    cases found :
      (opened.flatMap List.reverse ++ predeclared).find? fun d => d.nsPrefix = "xml" with
    | none =>
        have := List.find?_eq_none.1 found { nsPrefix := "xml", namespaceName := xmlNamespace }
          (List.mem_append_right _ List.mem_cons_self)
        simp at this
    | some d =>
        have named := List.find?_some found
        rcases List.mem_append.1 (List.mem_of_find?_eq_some found) with declared | fixed
        · obtain ⟨ds, isOpen, inside⟩ := List.mem_flatMap.1 declared
          have own := (allowed ds isOpen d (List.mem_reverse.1 inside)).1
          exact (own.1 (of_decide_eq_true named)).symm
        · rcases List.mem_cons.1 fixed with rfl | fixed
          · rfl
          · cases List.mem_singleton.1 fixed
            cases named
  · rw [uriOf, resolve?_of_ne_xml xml, namespaceOf]
    cases (opened.flatMap List.reverse ++ predeclared).find? fun d => d.nsPrefix = nsPrefix <;> rfl

end NamespaceScopes

end BinaryXml
