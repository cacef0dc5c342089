import BinaryXml.Proofs.ElementScopes

/-!
# Stacks of scopes

Scopes are best understood as a stack: each is a map from prefixes to namespaces that remembers the
order of its declarations, and below all of them is the one of the whole document, which knows
`xml` and `xmlns`. The bindings in one row, each with the depth of its scope, are such a stack
written out from the innermost scope to the outermost, latest declaration first. Whatever is done,
row and stack stay together, and every question has the same answer in both.
-/

namespace BinaryXml

open NamespaceDeclaration

/-! ## Maps from prefixes to namespaces -/

/-- What one scope binds, in the order of declaration, with at most one namespace to a prefix. -/
structure PrefixMap where
  declarations : List NamespaceDeclaration
  distinct : (declarations.map (·.nsPrefix)).Nodup

namespace PrefixMap

def empty : PrefixMap := ⟨[], List.nodup_nil⟩

def standard : PrefixMap := ⟨predeclared, by decide⟩

def find? (m : PrefixMap) (nsPrefix : String) : Option String :=
  (m.declarations.find? fun d => d.nsPrefix = nsPrefix).map (·.namespaceName)

def without (m : PrefixMap) (nsPrefix : String) : List NamespaceDeclaration :=
  m.declarations.filter fun d => d.nsPrefix ≠ nsPrefix

theorem nodup_declare (m : PrefixMap) (d : NamespaceDeclaration) :
    ((m.without d.nsPrefix ++ [d]).map (·.nsPrefix)).Nodup := by
  have others : ((m.without d.nsPrefix).map (·.nsPrefix)).Nodup :=
    m.distinct.sublist (List.filter_sublist.map _)
  rw [List.map_append, List.nodup_append]
  refine ⟨others, by simp, ?_⟩
  intro p old q new same
  obtain ⟨e, kept, rfl⟩ := List.mem_map.1 old
  have fresh := (List.mem_filter.1 kept).2
  simp at fresh new
  exact fresh (same.trans new)

/-- A declaration takes the place of an earlier one of its prefix, and counts as the latest. -/
def declare (m : PrefixMap) (d : NamespaceDeclaration) : PrefixMap :=
  ⟨m.without d.nsPrefix ++ [d], m.nodup_declare d⟩

variable {m : PrefixMap} {d : NamespaceDeclaration} {nsPrefix uri : String}

theorem find?_eq_none_iff :
    m.find? nsPrefix = none ↔ nsPrefix ∉ m.declarations.map (·.nsPrefix) := by
  simp [find?]

/-- Only one declaration is of the prefix, so that their order does not matter. -/
theorem map_find?_eq_some_iff {ds : List NamespaceDeclaration}
    (distinct : (ds.map (·.nsPrefix)).Nodup) :
    (ds.find? fun d => d.nsPrefix = nsPrefix).map (·.namespaceName) = some uri ↔
      ⟨nsPrefix, uri⟩ ∈ ds := by
  induction ds with
  | nil => simp
  | cons d ds ih =>
      rw [List.map_cons, List.nodup_cons] at distinct
      by_cases same : d.nsPrefix = nsPrefix
      · have absent : (⟨nsPrefix, uri⟩ : NamespaceDeclaration) ∉ ds := fun later =>
          distinct.1 (List.mem_map.2 ⟨_, later, same.symm⟩)
        subst same
        cases d
        simp [absent, eq_comm]
      · have differs : (⟨nsPrefix, uri⟩ : NamespaceDeclaration) ≠ d := fun equal =>
          same (equal ▸ rfl)
        simp [same, differs, ← ih distinct.2]

theorem find?_eq_some_iff : m.find? nsPrefix = some uri ↔ ⟨nsPrefix, uri⟩ ∈ m.declarations :=
  map_find?_eq_some_iff m.distinct

theorem nodup_reverse (m : PrefixMap) : (m.declarations.reverse.map (·.nsPrefix)).Nodup := by
  rw [List.map_reverse]
  exact List.pairwise_reverse.2 (m.distinct.imp Ne.symm)

theorem map_find?_reverse (m : PrefixMap) (nsPrefix : String) :
    ((m.declarations.reverse.find? fun d => d.nsPrefix = nsPrefix).map (·.namespaceName)) =
      m.find? nsPrefix := by
  refine Option.ext fun uri => ?_
  rw [map_find?_eq_some_iff m.nodup_reverse, List.mem_reverse, find?_eq_some_iff]

theorem find?_declare_of_ne (other : nsPrefix ≠ d.nsPrefix) :
    (m.declare d).find? nsPrefix = m.find? nsPrefix := by
  refine Option.ext fun uri => ?_
  have differs : (⟨nsPrefix, uri⟩ : NamespaceDeclaration) ≠ d := fun same => other (same ▸ rfl)
  simp [find?_eq_some_iff, declare, without, differs, other]

end PrefixMap

/-! ## Stacks and what is done to them -/

inductive ScopeOperation
  | push
  | pop
  | declare (d : NamespaceDeclaration)
  | reset

/-- The maps of the innermost scope and of those around it, the last one that of the document. -/
structure ScopeStack where
  innermost : PrefixMap := .standard
  outer : List PrefixMap := []

namespace ScopeStack

def maps (s : ScopeStack) : List PrefixMap := s.innermost :: s.outer

def depth (s : ScopeStack) : Nat := s.outer.length

/-- A prefix stands for what the innermost scope says that declares it. -/
def resolve? (s : ScopeStack) (nsPrefix : String) : Option String :=
  s.maps.findSome? (·.find? nsPrefix)

/-- The declarations that no inner scope hides, latest first. -/
def unhidden : List PrefixMap → List NamespaceDeclaration
  | [] => []
  | m :: outer =>
    m.declarations.reverse ++ (unhidden outer).filter fun d => m.find? d.nsPrefix = none

/-- The prefixes that stand for a namespace, latest declaration first. -/
def prefixesOf (s : ScopeStack) (uri : String) : List String :=
  ((unhidden s.maps).filter fun d => d.namespaceName = uri).map (·.nsPrefix)

/-- What the innermost element declares, in the order of declaration. -/
def declared (s : ScopeStack) : List String :=
  match s.outer with
  | [] => []
  | _ :: _ => s.innermost.declarations.map (·.nsPrefix)

/-- `xml` and `xmlns` and their namespaces are not for declarations, except that `xml` may be said
to be what it is. -/
def perform (s : ScopeStack) : ScopeOperation → Except NamespaceError ScopeStack
  | .push => .ok ⟨.empty, s.maps⟩
  | .pop =>
    match s.outer with
    | [] => .error .noScope
    | m :: outer => .ok ⟨m, outer⟩
  | .declare d =>
    if d = ⟨"xml", xmlNamespace⟩ then .ok s
    else if d.nsPrefix ∈ predeclared.map (·.nsPrefix) then
      .error (.reservedPrefix d.nsPrefix d.namespaceName)
    else if d.namespaceName ∈ predeclared.map (·.namespaceName) then
      .error (.reservedNamespace d.nsPrefix d.namespaceName)
    else .ok { s with innermost := s.innermost.declare d }
  | .reset => .ok {}

/-- A refused operation changes nothing. -/
def after (s : ScopeStack) (operation : ScopeOperation) : ScopeStack :=
  (s.perform operation).toOption.getD s

def run (s : ScopeStack) (operations : List ScopeOperation) : ScopeStack :=
  operations.foldl after s

end ScopeStack

namespace NamespaceScopes

def perform (s : NamespaceScopes) : ScopeOperation → Except NamespaceError NamespaceScopes
  | .push => .ok s.push
  | .pop => s.pop
  | .declare d => s.declare d.nsPrefix d.namespaceName
  | .reset => .ok initial

def after (s : NamespaceScopes) (operation : ScopeOperation) : NamespaceScopes :=
  (s.perform operation).toOption.getD s

def run (s : NamespaceScopes) (operations : List ScopeOperation) : NamespaceScopes :=
  operations.foldl after s

end NamespaceScopes

/-! ## Prefixes that are never declared anew -/

namespace ScopeStack

/-- The map of the document has the declaration, and no other map has its prefix. -/
def Keeps (d : NamespaceDeclaration) (m : PrefixMap) : List PrefixMap → Prop
  | [] => m.find? d.nsPrefix = some d.namespaceName
  | m' :: outer => m.find? d.nsPrefix = none ∧ Keeps d m' outer

variable {s : ScopeStack} {d : NamespaceDeclaration}

theorem resolve?_of_keeps (h : Keeps d s.innermost s.outer) :
    s.resolve? d.nsPrefix = some d.namespaceName := by
  obtain ⟨innermost, outer⟩ := s
  rw [resolve?, maps, List.findSome?_cons]
  induction outer generalizing innermost with
  | nil => rw [show innermost.find? d.nsPrefix = _ from h]
  | cons m outer ih =>
      rw [h.1, List.findSome?_cons]
      exact ih m h.2

theorem keeps_of_perform {s' : ScopeStack} {operation : ScopeOperation} (fixed : d ∈ predeclared)
    (h : Keeps d s.innermost s.outer) (performed : s.perform operation = .ok s') :
    Keeps d s'.innermost s'.outer := by
  obtain ⟨innermost, outer⟩ := s
  cases operation with
  | push =>
      cases performed
      exact ⟨rfl, h⟩
  | pop =>
      cases outer with
      | nil => cases performed
      | cons m outer =>
          cases performed
          exact h.2
  | declare e =>
      rw [perform] at performed
      split at performed
      · cases performed
        exact h
      · split at performed
        · cases performed
        · next free =>
            split at performed
            · cases performed
            · cases performed
              have other : d.nsPrefix ≠ e.nsPrefix := fun same =>
                free (same ▸ List.mem_map_of_mem fixed)
              cases outer with
              | nil => exact (PrefixMap.find?_declare_of_ne other).trans h
              | cons m outer => exact ⟨(PrefixMap.find?_declare_of_ne other).trans h.1, h.2⟩
  | reset =>
      cases performed
      exact PrefixMap.find?_eq_some_iff.2 fixed

theorem keeps_run (fixed : d ∈ predeclared) (h : Keeps d s.innermost s.outer)
    (operations : List ScopeOperation) :
    Keeps d (s.run operations).innermost (s.run operations).outer := by
  induction operations generalizing s with
  | nil => exact h
  | cons operation operations ih =>
      refine ih (s := s.after operation) ?_
      rw [after]
      cases performed : s.perform operation with
      | error cause => exact h
      | ok s' => exact keeps_of_perform fixed h performed

end ScopeStack

namespace NamespaceScopes

/-! ## Rows of bindings -/

/-- The bindings of a map, latest first. -/
def row (depth : Nat) (m : PrefixMap) : List Binding :=
  m.declarations.reverse.map fun d => ⟨d.nsPrefix, d.namespaceName, depth⟩

/-- The last map has depth zero. -/
def rows : List PrefixMap → List Binding
  | [] => []
  | m :: outer => row outer.length m ++ rows outer

def ofStack (s : ScopeStack) : NamespaceScopes := ⟨rows s.maps, s.depth⟩

variable {s : ScopeStack} {m : PrefixMap} {maps outer : List PrefixMap} {b : Binding} {depth : Nat}

theorem depth_of_mem_row (h : b ∈ row depth m) : b.depth = depth := by
  obtain ⟨d, -, rfl⟩ := List.mem_map.1 h
  rfl

theorem depth_lt_of_mem_rows (h : b ∈ rows maps) : b.depth < maps.length := by
  induction maps with
  | nil => cases h
  | cons m outer ih =>
      rcases List.mem_append.1 h with inside | outside
      · rw [depth_of_mem_row inside]
        exact Nat.lt_succ_self _
      · exact Nat.lt_succ_of_lt (ih outside)

theorem nodup_row (depth : Nat) (m : PrefixMap) : ((row depth m).map (·.nsPrefix)).Nodup := by
  rw [row, List.map_map]
  exact m.nodup_reverse

/-! ## Operations on the row -/

/-- At most one binding is of the prefix. -/
theorem eraseP_eq_filter {bs : List Binding} (distinct : (bs.map (·.nsPrefix)).Nodup)
    (nsPrefix : String) :
    bs.eraseP (fun b => b.nsPrefix = nsPrefix) = bs.filter fun b => b.nsPrefix ≠ nsPrefix := by
  induction bs with
  | nil => rfl
  | cons b bs ih =>
      rw [List.map_cons, List.nodup_cons] at distinct
      by_cases same : b.nsPrefix = nsPrefix
      · have others : ∀ c ∈ bs, c.nsPrefix ≠ nsPrefix := fun c later again =>
          distinct.1 (List.mem_map.2 ⟨c, later, again.trans same.symm⟩)
        have whole : bs.filter (fun c => c.nsPrefix ≠ nsPrefix) = bs :=
          List.filter_eq_self.2 (by simpa using others)
        simpa [same] using whole.symm
      · simpa [same] using ih distinct.2

theorem row_declare (d : NamespaceDeclaration) :
    row depth (m.declare d) =
      ⟨d.nsPrefix, d.namespaceName, depth⟩ ::
        (row depth m).eraseP fun b => b.nsPrefix = d.nsPrefix := by
  have kept : (m.without d.nsPrefix).reverse =
      m.declarations.reverse.filter fun e => e.nsPrefix ≠ d.nsPrefix := List.filter_reverse.symm
  rw [eraseP_eq_filter (nodup_row depth m), row, row, List.filter_map, PrefixMap.declare,
    List.reverse_append, kept]
  rfl

/-- A test by depth splits the bindings where the innermost scope ends. -/
theorem split_rows (m : PrefixMap) (outer : List PrefixMap) (p : Binding → Bool)
    (own : ∀ b, b.depth = outer.length → p b) (around : ∀ b, b.depth < outer.length → p b = false) :
    (rows (m :: outer)).takeWhile p = row outer.length m ∧
      (rows (m :: outer)).dropWhile p = rows outer :=
  split_append (fun b h => own b (depth_of_mem_row h))
    (fun b h => around b (depth_lt_of_mem_rows h))

theorem pop_ofStack : (ofStack s).pop = (s.perform .pop).map ofStack := by
  obtain ⟨innermost, outer⟩ := s
  cases outer with
  | nil => rfl
  | cons m outer =>
      have split := split_rows innermost (m :: outer) (fun b => decide (outer.length + 1 ≤ b.depth))
        (fun b h => decide_eq_true (Nat.le_of_eq h.symm))
        (fun b h => decide_eq_false (Nat.not_le_of_lt h))
      exact congrArg (fun bs => Except.ok (⟨bs, outer.length⟩ : NamespaceScopes)) split.2

theorem declare_ofStack (d : NamespaceDeclaration) :
    (ofStack s).declare d.nsPrefix d.namespaceName = (s.perform (.declare d)).map ofStack := by
  obtain ⟨nsPrefix, uri⟩ := d
  obtain ⟨innermost, outer⟩ := s
  have own : (⟨nsPrefix, uri⟩ : NamespaceDeclaration) = ⟨"xml", xmlNamespace⟩ ↔
      nsPrefix = "xml" ∧ uri = xmlNamespace := by simp
  have fixed : nsPrefix ∈ predeclared.map (·.nsPrefix) ↔ nsPrefix = "xml" ∨ nsPrefix = "xmlns" := by
    simp [predeclared]
  have reserved : uri ∈ predeclared.map (·.namespaceName) ↔
      uri = xmlNamespace ∨ uri = xmlnsNamespace := by simp [predeclared]
  have split := split_rows innermost outer (fun b => decide (b.depth = outer.length))
    (fun b h => decide_eq_true h) (fun b h => decide_eq_false (Nat.ne_of_lt h))
  simp only [declare, ScopeStack.perform, own, fixed, reserved]
  split
  · rfl
  · split
    · rfl
    · split
      · rfl
      · simp only [ofStack, ScopeStack.maps, ScopeStack.depth, rows, Except.map, row_declare]
        rw [rows] at split
        rw [split.1, split.2]

theorem perform_ofStack (s : ScopeStack) (operation : ScopeOperation) :
    (ofStack s).perform operation = (s.perform operation).map ofStack := by
  cases operation with
  | push => rfl
  | pop => exact pop_ofStack
  | declare d => exact declare_ofStack d
  | reset => rfl

theorem after_ofStack (s : ScopeStack) (operation : ScopeOperation) :
    (ofStack s).after operation = ofStack (s.after operation) := by
  rw [after, perform_ofStack, ScopeStack.after]
  cases s.perform operation <;> rfl

theorem run_ofStack (s : ScopeStack) (operations : List ScopeOperation) :
    (ofStack s).run operations = ofStack (s.run operations) := by
  induction operations generalizing s with
  | nil => rfl
  | cons operation operations ih =>
      have rest := ih (s.after operation)
      rwa [← after_ofStack] at rest

/-! ## Questions to the row -/

theorem map_find?_rows (maps : List PrefixMap) (nsPrefix : String) :
    ((rows maps).find? fun b => b.nsPrefix = nsPrefix).map (·.uri) =
      maps.findSome? (·.find? nsPrefix) := by
  induction maps with
  | nil => rfl
  | cons m outer ih =>
      have inside : ((row outer.length m).find? fun b => b.nsPrefix = nsPrefix).map (·.uri) =
          m.find? nsPrefix := by
        rw [row, List.find?_map, Option.map_map, ← m.map_find?_reverse]
        rfl
      rw [rows, List.find?_append, Option.map_or, inside, ih, List.findSome?_cons]
      cases m.find? nsPrefix <;> rfl

theorem resolve?_ofStack (s : ScopeStack) (nsPrefix : String) :
    (ofStack s).resolve? nsPrefix = s.resolve? nsPrefix :=
  map_find?_rows s.maps nsPrefix

/-- The first binding of each prefix. -/
def firsts : List Binding → List Binding
  | [] => []
  | b :: bs => b :: (firsts bs).filter fun c => c.nsPrefix ≠ b.nsPrefix

theorem nodup_firsts (bs : List Binding) : ((firsts bs).map (·.nsPrefix)).Nodup := by
  induction bs with
  | nil => exact List.nodup_nil
  | cons b bs ih =>
      rw [firsts, List.map_cons, List.nodup_cons]
      exact ⟨by simp, ih.sublist (List.filter_sublist.map _)⟩

theorem eraseDups_filter (p : String → Bool) (l : List String) :
    (l.filter p).eraseDups = l.eraseDups.filter p := by
  induction length : l.length using Nat.strongRecOn generalizing l with
  | ind n ih =>
      cases l with
      | nil => rfl
      | cons a as =>
          have shorter : (as.filter fun b => !b == a).length < n := by
            have := List.length_filter_le (fun b => !b == a) as
            rw [List.length_cons] at length
            omega
          have rest := ih _ shorter _ rfl
          rw [List.eraseDups_cons]
          by_cases kept : p a
          · rw [List.filter_cons_of_pos kept, List.filter_cons_of_pos kept, List.eraseDups_cons,
              ← rest, List.filter_filter, List.filter_filter]
            simp only [Bool.and_comm]
          · have others : ∀ b ∈ as, p b = (p b && !b == a) := by
              intro b _
              by_cases same : b = a
              · simp [same, kept]
              · simp [same]
            rw [List.filter_cons_of_neg kept, List.filter_cons_of_neg kept, ← rest,
              List.filter_filter, List.filter_congr others]

/-- Bindings of different prefixes hide those of the same prefixes behind them. -/
theorem firsts_append {bs cs : List Binding} (distinct : (bs.map (·.nsPrefix)).Nodup) :
    firsts (bs ++ cs) = bs ++ (firsts cs).filter fun c => c.nsPrefix ∉ bs.map (·.nsPrefix) := by
  induction bs with
  | nil => exact (List.filter_eq_self.2 (by simp)).symm
  | cons b bs ih =>
      rw [List.map_cons, List.nodup_cons] at distinct
      have shown : bs.filter (fun c => c.nsPrefix ≠ b.nsPrefix) = bs :=
        List.filter_eq_self.2 fun c inside =>
          decide_eq_true fun same => distinct.1 (List.mem_map.2 ⟨c, inside, same⟩)
      rw [List.cons_append, firsts, ih distinct.2, List.filter_append, shown, List.filter_filter,
        List.cons_append]
      simp [not_or]

/-- Whether a binding is one to the namespace, and its prefix stands for that. -/
def standsFor (bs : List Binding) (uri : String) (b : Binding) : Bool :=
  b.uri = uri && (bs.find? fun c => c.nsPrefix = b.nsPrefix).map (·.uri) = some uri

section StandsFor

variable {b c : Binding} {bs : List Binding} {uri : String}

theorem standsFor_cons_of_ne (other : c.nsPrefix ≠ b.nsPrefix) :
    standsFor (b :: bs) uri c = standsFor bs uri c := by
  simp [standsFor, Ne.symm other]

theorem uri_eq_of_standsFor (stands : standsFor (b :: bs) uri c)
    (same : c.nsPrefix = b.nsPrefix) : b.uri = uri := by
  simp [standsFor, same] at stands
  exact stands.2

theorem filter_prefixes (p : String → Bool) (cs : List Binding) :
    (cs.map (·.nsPrefix)).filter p = (cs.filter fun c => p c.nsPrefix).map (·.nsPrefix) := by
  rw [List.filter_map]
  rfl

/-- Besides the prefix of the first binding, the same ones stand for the namespace without it. -/
theorem filter_standsFor_cons (b : Binding) (bs : List Binding) (uri : String) :
    ((bs.filter (standsFor (b :: bs) uri)).map (·.nsPrefix)).filter (fun p => !p == b.nsPrefix) =
      ((bs.filter (standsFor bs uri)).map (·.nsPrefix)).filter fun p => !p == b.nsPrefix := by
  have apart (c : Binding) : (!c.nsPrefix == b.nsPrefix && standsFor (b :: bs) uri c) =
      (!c.nsPrefix == b.nsPrefix && standsFor bs uri c) := by
    by_cases same : c.nsPrefix = b.nsPrefix
    · simp [same]
    · rw [standsFor_cons_of_ne same]
  rw [filter_prefixes, filter_prefixes, List.filter_filter, List.filter_filter]
  simp only [apart]

/-- Where the first binding is to another namespace, its prefix does not stand for this one. -/
theorem filter_standsFor_cons_of_ne (named : b.uri ≠ uri) :
    ((bs.filter (standsFor (b :: bs) uri)).map (·.nsPrefix)).filter (fun p => !p == b.nsPrefix) =
      (bs.filter (standsFor (b :: bs) uri)).map (·.nsPrefix) := by
  rw [filter_prefixes, List.filter_eq_self.2]
  intro c inside
  have other : c.nsPrefix ≠ b.nsPrefix := fun same =>
    named (uri_eq_of_standsFor (List.mem_filter.1 inside).2 same)
  simpa using other

/-- The prefixes that stand for a namespace are those of first bindings. -/
theorem eraseDups_standsFor (bs : List Binding) (uri : String) :
    ((bs.filter (standsFor bs uri)).map (·.nsPrefix)).eraseDups =
      ((firsts bs).filter fun b => b.uri = uri).map (·.nsPrefix) := by
  induction bs with
  | nil => rfl
  | cons b bs ih =>
      have first : firsts (b :: bs) =
          b :: (firsts bs).filter fun c => !c.nsPrefix == b.nsPrefix := by
        simp only [firsts, ne_eq, decide_not]
        rfl
      -- What there is besides the prefix of `b` is the same with `b` and without.
      have behind :
          (((bs.filter (standsFor (b :: bs) uri)).map (·.nsPrefix)).filter
            fun p => !p == b.nsPrefix).eraseDups =
          (((firsts bs).filter fun c => !c.nsPrefix == b.nsPrefix).filter fun c => c.uri = uri).map
            (·.nsPrefix) := by
        rw [filter_standsFor_cons, eraseDups_filter, ih, filter_prefixes, List.filter_filter,
          List.filter_filter]
        simp only [Bool.and_comm]
      rw [first]
      by_cases named : b.uri = uri
      · have stands : standsFor (b :: bs) uri b := by simp [standsFor, named]
        rw [List.filter_cons_of_pos stands, List.filter_cons_of_pos (by simpa using named),
          List.map_cons, List.map_cons, List.eraseDups_cons, ← behind]
      · have fails : ¬ standsFor (b :: bs) uri b := fun stands =>
          named (uri_eq_of_standsFor stands rfl)
        rw [List.filter_cons_of_neg fails, List.filter_cons_of_neg (by simpa using named),
          ← behind, filter_standsFor_cons_of_ne named]

end StandsFor

theorem firsts_rows (maps : List PrefixMap) :
    (firsts (rows maps)).map (fun b => (⟨b.nsPrefix, b.uri⟩ : NamespaceDeclaration)) =
      ScopeStack.unhidden maps := by
  induction maps with
  | nil => rfl
  | cons m outer ih =>
      have names : (row outer.length m).map (·.nsPrefix) =
          m.declarations.reverse.map (·.nsPrefix) := by
        rw [row, List.map_map]
        rfl
      rw [rows, firsts_append (nodup_row _ m), List.map_append, ScopeStack.unhidden, ← ih,
        List.filter_map, names]
      congr 1
      · rw [row, List.map_map]
        exact List.map_id _
      · congr 2
        funext b
        simp [PrefixMap.find?_eq_none_iff]

theorem prefixesOf_eq_map_firsts (s : ScopeStack) (uri : String) :
    s.prefixesOf uri = ((firsts (rows s.maps)).filter fun b => b.uri = uri).map (·.nsPrefix) := by
  rw [ScopeStack.prefixesOf, ← firsts_rows, List.filter_map, List.map_map]
  rfl

theorem prefixesOf_ofStack (s : ScopeStack) (uri : String) :
    (ofStack s).prefixesOf uri = s.prefixesOf uri := by
  rw [prefixesOf_eq_map_firsts]
  exact eraseDups_standsFor (rows s.maps) uri

theorem nodup_prefixesOf (s : ScopeStack) (uri : String) : (s.prefixesOf uri).Nodup := by
  rw [prefixesOf_eq_map_firsts]
  exact (nodup_firsts _).sublist (List.filter_sublist.map _)

theorem mem_prefixesOf {s : NamespaceScopes} {uri nsPrefix : String} :
    nsPrefix ∈ s.prefixesOf uri ↔ s.resolve? nsPrefix = some uri := by
  rw [prefixesOf, List.mem_eraseDups, List.mem_map]
  constructor
  · rintro ⟨b, inside, rfl⟩
    have stands := (List.mem_filter.1 inside).2
    simp only [Bool.and_eq_true, decide_eq_true_eq] at stands
    exact stands.2
  · intro stands
    obtain ⟨b, found, rfl⟩ := Option.map_eq_some_iff.1 stands
    have named : b.nsPrefix = nsPrefix := by simpa using List.find?_some found
    subst named
    exact ⟨b, List.mem_filter.2 ⟨List.mem_of_find?_eq_some found, by simp [stands]⟩, rfl⟩

theorem prefixOf?_eq_head? (s : NamespaceScopes) (uri : String) :
    s.prefixOf? uri = (s.prefixesOf uri).head? := by
  rw [prefixOf?, prefixesOf, ← List.head?_filter, ← List.head?_map]
  generalize List.map _ _ = prefixes
  cases prefixes with
  | nil => rfl
  | cons p ps => rw [List.eraseDups_cons]; rfl

theorem declared_ofStack (s : ScopeStack) : (ofStack s).declared = s.declared := by
  obtain ⟨innermost, outer⟩ := s
  cases outer with
  | nil => rfl
  | cons m outer =>
      have inside : (row (outer.length + 1) innermost).filter
          (fun b => b.depth = outer.length + 1) = row (outer.length + 1) innermost :=
        List.filter_eq_self.2 fun b h => decide_eq_true (depth_of_mem_row h)
      have outside : (rows (m :: outer)).filter (fun b => b.depth = outer.length + 1) = [] :=
        List.filter_eq_nil_iff.2 fun b h => by
          simpa using Nat.ne_of_lt (depth_lt_of_mem_rows h)
      have row_eq : (ofStack ⟨innermost, m :: outer⟩).bindings =
          row (outer.length + 1) innermost ++ rows (m :: outer) := rfl
      have depth_eq : (ofStack ⟨innermost, m :: outer⟩).depth = outer.length + 1 := rfl
      rw [declared, row_eq, depth_eq, if_neg (Nat.succ_ne_zero _), List.filter_append, inside,
        outside, List.append_nil, row, List.map_map, ← List.map_reverse, List.reverse_reverse]
      rfl

/-! ## Answers -/

/-- The scopes do and answer what the stack does and answers. -/
structure Answers (s : NamespaceScopes) (stack : ScopeStack) : Prop where
  perform_eq_error (operation : ScopeOperation) (cause : NamespaceError) :
    s.perform operation = .error cause ↔ stack.perform operation = .error cause
  depth_eq : s.depth = stack.depth
  uriOf_eq (nsPrefix : String) : s.uriOf nsPrefix = (stack.resolve? nsPrefix).getD ""
  prefixesOf_eq (uri : String) : s.prefixesOf uri = stack.prefixesOf uri
  nodup_prefixesOf (uri : String) : (s.prefixesOf uri).Nodup
  mem_prefixesOf (uri nsPrefix : String) :
    nsPrefix ∈ s.prefixesOf uri ↔ stack.resolve? nsPrefix = some uri
  prefixOf?_eq (uri : String) : s.prefixOf? uri = (s.prefixesOf uri).head?
  declared_eq : s.declared = stack.declared
  uriOf_xml : s.uriOf "xml" = xmlNamespace
  uriOf_xmlns : s.uriOf "xmlns" = xmlnsNamespace

/-- After any run from the initial scopes, they answer as a stack of maps after the same run. -/
theorem answers_run_initial (operations : List ScopeOperation) :
    (initial.run operations).Answers (({} : ScopeStack).run operations) := by
  have reached : initial.run operations = ofStack (({} : ScopeStack).run operations) :=
    run_ofStack {} operations
  have keeps (d : NamespaceDeclaration) (fixed : d ∈ predeclared) :=
    ScopeStack.resolve?_of_keeps (ScopeStack.keeps_run (s := {}) fixed
      (PrefixMap.find?_eq_some_iff.2 fixed) operations)
  rw [reached]
  generalize ({} : ScopeStack).run operations = stack at keeps
  have uriOf_eq (nsPrefix : String) :
      (ofStack stack).uriOf nsPrefix = (stack.resolve? nsPrefix).getD "" := by
    rw [uriOf, resolve?_ofStack]
  exact
    { perform_eq_error := fun operation cause => by
        rw [perform_ofStack]
        cases stack.perform operation <;> simp [Except.map]
      depth_eq := rfl
      uriOf_eq
      prefixesOf_eq := prefixesOf_ofStack stack
      nodup_prefixesOf := fun uri => prefixesOf_ofStack stack uri ▸ nodup_prefixesOf stack uri
      mem_prefixesOf := fun uri nsPrefix => by rw [mem_prefixesOf, resolve?_ofStack]
      prefixOf?_eq := prefixOf?_eq_head? _
      declared_eq := declared_ofStack stack
      uriOf_xml := by rw [uriOf_eq, keeps ⟨"xml", xmlNamespace⟩ (by decide)]; rfl
      uriOf_xmlns := by rw [uriOf_eq, keeps ⟨"xmlns", xmlnsNamespace⟩ (by decide)]; rfl }

/-- A prefix is listed where it was declared last, and not at all where it is hidden. -/
example : (initial.run [.push, .declare ⟨"a", "u"⟩, .push, .declare ⟨"b", "u"⟩, .declare ⟨"c", "u"⟩,
    .declare ⟨"d", "u"⟩, .declare ⟨"b", "u"⟩, .push, .declare ⟨"c", "v"⟩]).prefixesOf "u" =
      ["b", "d", "a"] := by decide

end NamespaceScopes

end BinaryXml
