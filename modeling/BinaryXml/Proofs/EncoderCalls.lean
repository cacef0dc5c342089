import BinaryXml.Encoder
import BinaryXml.Proofs.ElementScopes
import BinaryXml.Proofs.WriterEffects

/-!
# Calls of an encoder

An encoder does nothing but call its writer and declare prefixes in its scopes. This module says
what each of these steps leaves of the encoder, whether it succeeds or fails.
-/

namespace BinaryXml

namespace Writer

/-- How many elements are open after a call. -/
def depthAfter (depth : Nat) : Call → Nat
  | .endStartElement => depth + 1
  | .endElement => depth - 1
  | _ => depth

variable {c : Codec} {call : Call} {w w' : Writer} {reply : Reply}

theorem depth_of_carryOut (h : carryOut c call w = .ok () w') :
    w'.depth = depthAfter w.depth call := by
  cases call with
  | startDocument | declare | elementName | attributeName | attributeValue | comment
  | instruction =>
      unfold carryOut at h
      obtain ⟨item, -, wrote⟩ := wrote_of_writeNew h
      exact wrote.depth_eq
  | initiate | startDeclarations | endDeclarations =>
      cases h
      rfl
  | mark =>
      cases h
      change w.settle.depth = w.depth
      rw [settle_eq]
  | startAttributes =>
      cases h
      change w.announceAttributes.depth = w.depth
      rw [announceAttributes_eq]
  | endStartElement =>
      have agrees := agrees_of_handOver h
      rw [agrees.depth_eq]
      dsimp only
      split
      · change w.terminate.depth + 1 = w.depth + 1
        rw [terminate_eq]
      · rfl
  | characters content =>
      unfold carryOut at h
      dsimp only at h
      split at h
      · exact (wrote_of_write h).depth_eq
      · cases h
        rfl
      · cases h
  | endElement =>
      exact (agrees_of_handOver h).depth_eq

theorem depth_of_perform (h : perform c call w = .ok reply w') :
    w'.depth = depthAfter w.depth call := by
  obtain ⟨-, u, done, rfl⟩ := perform_eq_ok h
  exact (depth_of_carryOut done :)

theorem stage_of_perform (h : perform c call w = .ok reply w') :
    w'.stage = call.stageAfter := by
  obtain ⟨-, u, -, rfl⟩ := perform_eq_ok h
  rfl

end Writer

namespace NamespaceScopes

variable {s s' : NamespaceScopes}

theorem depth_of_declare {nsPrefix uri : String} (h : s.declare nsPrefix uri = .ok s') :
    s'.depth = s.depth := by
  unfold declare at h
  split at h
  · cases h
    rfl
  · split at h
    · cases h
    · split at h <;> cases h
      rfl

theorem depth_of_pop (h : s.pop = .ok s') : s'.depth + 1 = s.depth := by
  unfold pop at h
  split at h
  · cases h
  · cases h
    dsimp only
    omega

end NamespaceScopes

namespace Encoder

variable {α β : Type} {c : Codec} {e e' : Encoder} {cause : CodecError}

/-! ## What steps leave -/

/-- The encoder that a step leaves, whether it succeeds or fails. -/
def after (p : Encoding α) (e : Encoder) : Encoder :=
  match p e with
  | .ok _ e' => e'
  | .error _ e' => e'

theorem after_of_ok {p : Encoding α} {a : α} (h : p e = .ok a e') : after p e = e' := by
  rw [after, h]

theorem after_of_error {p : Encoding α} (h : p e = .error cause e') : after p e = e' := by
  rw [after, h]

theorem after_bind (p : Encoding α) (f : α → Encoding β) (e : Encoder) :
    after (p >>= f) e =
      match p e with
      | .ok a u => after (f a) u
      | .error _ u => u := by
  rw [after]
  change (match EStateM.bind p f e with
    | .ok _ e' => e'
    | .error _ e' => e') = _
  unfold EStateM.bind
  cases p e <;> rfl

/-- What no step of a list changes is left, even if one of them fails. -/
theorem after_forM {P : Encoder → Prop} {f : β → Encoding Unit} {xs : List β}
    (step : ∀ x e, P e → P (after (f x) e)) (h : P e) : P (after (xs.forM f) e) := by
  induction xs generalizing e with
  | nil => exact h
  | cons x xs ih =>
      have first := step x e h
      change P (after (f x >>= fun _ => xs.forM f) e)
      rw [after_bind]
      cases done : f x e with
      | ok _ u =>
          rw [after_of_ok done] at first
          exact ih first
      | error _ u =>
          rw [after_of_error done] at first
          exact first

/-! ## Calls and scopes -/

theorem writing_eq_ok {p : Writing α} {a : α} (h : writing p e = .ok a e') :
    p e.writer = .ok a e'.writer ∧ e' = { e with writer := e'.writer } := by
  unfold writing at h
  dsimp only at h
  split at h
  · next done =>
      cases h
      exact ⟨done, rfl⟩
  · cases h

theorem call_of_perform {call : Call} {reply : Reply} {w : Writer}
    (h : Writer.perform c call e.writer = .ok reply w) :
    Encoder.call c call e = .ok () { e with writer := w } := by
  refine bind_of_ok (a := reply) ?_
  rw [writing, h]

theorem call_of_perform_error {call : Call} {w : Writer}
    (h : Writer.perform c call e.writer = .error cause w) :
    Encoder.call c call e = .error cause { e with writer := w } := by
  refine bind_of_error ?_
  rw [writing, h]

theorem writing_eq_error {p : Writing α} (h : writing p e = .error cause e') :
    p e.writer = .error cause e'.writer ∧ e' = { e with writer := e'.writer } := by
  unfold writing at h
  dsimp only at h
  split at h
  · cases h
  · next failed =>
      cases h
      exact ⟨failed, rfl⟩

theorem call_eq_ok {call : Call} (h : Encoder.call c call e = .ok () e') :
    (∃ reply, Writer.perform c call e.writer = .ok reply e'.writer) ∧
      e' = { e with writer := e'.writer } := by
  obtain ⟨reply, u, done, last⟩ := bind_eq_ok h
  cases last
  obtain ⟨performed, rest⟩ := writing_eq_ok done
  exact ⟨⟨reply, performed⟩, rest⟩

theorem call_eq_error {call : Call} (h : Encoder.call c call e = .error cause e') :
    Writer.perform c call e.writer = .error cause e'.writer ∧
      e' = { e with writer := e'.writer } := by
  rcases bind_eq_error h with failed | ⟨_, u, -, last⟩
  · exact writing_eq_error failed
  · cases last

theorem unchanged_of_call {call : Call} (h : Encoder.call c call e = .error cause e') :
    e' = e ∨ e'.writer.stage = .poisoned := by
  obtain ⟨failed, kept⟩ := call_eq_error h
  rcases Writer.unchanged_of_perform failed with same | poisoned
  · rw [same] at kept
    exact .inl kept
  · exact .inr poisoned

theorem stage_ne_poisoned_of_call {call : Call} (h : Encoder.call c call e = .ok () e') :
    e.writer.stage ≠ .poisoned := by
  intro poisoned
  obtain ⟨⟨reply, performed⟩, -⟩ := call_eq_ok h
  cases performed.symm.trans (Writer.perform_of_poisoned poisoned)

theorem callWith_of_call {toCall : Content → Call} {content : Content}
    (h : Encoder.call c (toCall content) e = .ok () e') :
    callWith c toCall content e = .ok () e' := by
  cases content with
  | restricted id characters =>
      unfold callWith
      dsimp only
      rw [h]
  | _ => exact h

/-- What is not packed is written plainly by the encoder that the refusal left. -/
theorem callWith_of_refused {toCall : Content → Call} {id : UInt8} {characters : String}
    (h : Encoder.call c (toCall (.restricted id characters)) e = .error cause e')
    (plain : allowsPlainText cause = true) :
    callWith c toCall (.restricted id characters) e =
      Encoder.call c (toCall (.text characters)) e' := by
  unfold callWith
  dsimp only
  rw [h]
  exact if_pos plain

/-- Content is written as it is, or text plainly after its alphabet was refused. -/
theorem callWith_eq_ok {toCall : Content → Call} {content : Content}
    (h : callWith c toCall content e = .ok () e') :
    Encoder.call c (toCall content) e = .ok () e' ∨
      ∃ id characters cause, content = .restricted id characters ∧ allowsPlainText cause = true ∧
        Encoder.call c (toCall content) e = .error cause e ∧
        Encoder.call c (toCall (.text characters)) e = .ok () e' := by
  cases content with
  | restricted id characters =>
      unfold callWith at h
      dsimp only at h
      split at h
      · next done =>
          cases h
          exact .inl done
      · next cause u failed =>
          split at h
          · next allowed =>
              rcases unchanged_of_call failed with rfl | poisoned
              · exact .inr ⟨id, characters, cause, rfl, allowed, failed, h⟩
              · exact absurd poisoned (stage_ne_poisoned_of_call h)
          · cases h
  | _ => exact .inl h

theorem unchanged_of_callWith {toCall : Content → Call} {content : Content}
    (h : callWith c toCall content e = .error cause e') :
    e' = e ∨ e'.writer.stage = .poisoned := by
  cases content with
  | restricted id characters =>
      unfold callWith at h
      dsimp only at h
      split at h
      · cases h
      · next u failed =>
          split at h
          · rcases unchanged_of_call failed with rfl | poisoned
            · exact unchanged_of_call h
            · rcases unchanged_of_call h with rfl | poisoned'
              · exact .inr poisoned
              · exact .inr poisoned'
          · cases h
            exact unchanged_of_call failed
  | _ => exact unchanged_of_call h

theorem scoping_eq_ok {f : NamespaceScopes → Except NamespaceError NamespaceScopes}
    (h : scoping f e = .ok () e') :
    f e.scopes = .ok e'.scopes ∧ e' = { e with scopes := e'.scopes } := by
  unfold scoping at h
  split at h
  · next done =>
      cases h
      exact ⟨done, rfl⟩
  · cases h

theorem scoping_eq_error {f : NamespaceScopes → Except NamespaceError NamespaceScopes}
    (h : scoping f e = .error cause e') : e' = e := by
  unfold scoping at h
  split at h <;> cases h
  rfl

theorem resolve_eq_ok {kind : NameKind} {name resolved : QualifiedName}
    (h : resolve kind name e = .ok resolved e') :
    e.scopes.resolveName kind name = .ok resolved ∧ e' = e := by
  unfold resolve at h
  split at h
  · next done =>
      cases h
      exact ⟨done, rfl⟩
  · cases h

theorem resolve_of_ok {kind : NameKind} {name resolved : QualifiedName}
    (h : e.scopes.resolveName kind name = .ok resolved) :
    resolve kind name e = .ok resolved e := by
  rw [resolve, h]

theorem resolve_eq_error {kind : NameKind} {name : QualifiedName}
    (h : resolve kind name e = .error cause e') : e' = e := by
  unfold resolve at h
  split at h <;> cases h
  rfl

theorem writeParts_eq (c : Codec) (name : QualifiedName) (ds : List NamespaceDeclaration)
    (attributes : List Attribute) :
    writeParts c name ds attributes =
      ((if ds.isEmpty then pure () else writeDeclarations c ds) >>= fun _ =>
        call c (.elementName (.named name)) >>= fun _ =>
        if attributes.isEmpty then pure () else writeAttributes c attributes) := by
  cases ds <;> cases attributes <;> rfl

/-- An element adds one scope, even if one of its declarations is refused. -/
theorem after_openScope (ds : List NamespaceDeclaration) (e : Encoder) :
    (after (openScope ds) e).writer = e.writer ∧
      (after (openScope ds) e).scopes.depth = e.scopes.depth + 1 := by
  refine after_forM (P := fun u => u.writer = e.writer ∧ u.scopes.depth = e.scopes.depth + 1)
    ?_ ⟨rfl, rfl⟩
  intro d u same
  cases declared : scoping (·.declare d.nsPrefix d.namespaceName) u with
  | ok _ u' =>
      obtain ⟨accepted, kept⟩ := scoping_eq_ok declared
      rw [after_of_ok declared, kept]
      exact ⟨same.1, (NamespaceScopes.depth_of_declare accepted).trans same.2⟩
  | error cause u' =>
      rw [after_of_error declared, scoping_eq_error declared]
      exact same

theorem declare_all {opened : List (List NamespaceDeclaration)}
    {before ds : List NamespaceDeclaration} (h : e.scopes = .ofElements (before :: opened))
    (ok : (ds.forM fun d => scoping (·.declare d.nsPrefix d.namespaceName)) e = .ok () e') :
    e'.scopes = .ofElements ((before ++ ds) :: opened) ∧ (∀ d ∈ ds, d.IsAllowed) := by
  induction ds generalizing e before with
  | nil =>
      cases ok
      rw [List.append_nil]
      exact ⟨h, nofun⟩
  | cons d ds ih =>
      obtain ⟨_, u, first, rest⟩ := bind_eq_ok ok
      obtain ⟨declared, -⟩ := scoping_eq_ok first
      have allowed := NamespaceScopes.declare_eq_ok declared
      rw [h] at declared
      obtain ⟨scopes, others⟩ := ih (NamespaceScopes.declare_ofElements declared) rest
      rw [List.append_assoc] at scopes
      exact ⟨scopes, List.forall_mem_cons.2 ⟨allowed, others⟩⟩

theorem openScope_eq_ok {opened : List (List NamespaceDeclaration)}
    {ds : List NamespaceDeclaration} (h : e.scopes = .ofElements opened)
    (ok : openScope ds e = .ok () e') :
    e'.scopes = .ofElements (ds :: opened) ∧ ∀ d ∈ ds, d.IsAllowed := by
  obtain ⟨_, u, pushed, rest⟩ := bind_eq_ok ok
  cases pushed
  have scopes : ({ e with scopes := e.scopes.push } : Encoder).scopes =
      .ofElements ([] :: opened) := by
    rw [h]
    rfl
  exact declare_all scopes rest

end Encoder

end BinaryXml
