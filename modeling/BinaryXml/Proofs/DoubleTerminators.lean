import BinaryXml.Proofs.SelfDelimiting

/-!
# Double terminators

A double terminator is read in two loops and means three things: the end of attributes and of
their element, of two elements, or of an element and the document. Each time it is what two
terminators are, so a writer may put one for two wherever it likes. Only where no element is open
neither can stand: nothing is left for the second half to end.
-/

namespace BinaryXml

namespace Decoder

variable {c : Codec} {s s' : State} {events events' completed : List Event}
  {before after : Array Event} {front rest : Octets} {i i' : Input} {offset offset' : Nat}

/-! ## States that are reached -/

theorem ended_of_step {r : List Event × State} (h : step c s i = .ok r i')
    (ended : s.phase = .ended) : r.2.phase = .ended := by
  obtain ⟨first, j, -, read⟩ := bind_eq_ok h
  rw [readAfter, ended] at read
  cases read
  exact ended

theorem ended_of_consume (h : consume c s events i = .ok (events', s') i')
    (ended : s.phase = .ended) : s'.phase = .ended := by
  fun_induction consume c s events i with
  | case1 =>
      cases h
      exact ended
  | case2 => cases h
  | case3 s events i _ _ _ completed s'' j ok ih => exact ih h (ended_of_step ok ended)

/-- A decoder that has not ended passes from step to step, whatever follows. -/
theorem passes_of_consume (h : consume c s events i = .ok (events', s') i')
    (going : s'.phase ≠ .ended) :
    ∃ completed, events' = events ++ completed ∧ Passes c s i.rest completed s' := by
  fun_induction consume c s events i with
  | case1 s events i none =>
      cases h
      refine ⟨[], (List.append_nil _).symm, ?_⟩
      rw [none]
      exact Passes.refl c _
  | case2 => cases h
  | case3 s events i _ _ _ completed s'' j ok ih =>
      obtain ⟨later, all, passes⟩ := ih h
      obtain ⟨taken, split, delimits⟩ := selfDelimiting_step c s i _ j ok
      have going' : s''.phase ≠ .ended := fun ended => going (ended_of_consume h ended)
      refine ⟨completed ++ later, by rw [all, List.append_assoc], ?_⟩
      rw [split]
      exact (passes_of_yields delimits.yields going').trans passes

theorem arrives_of_consumeFront (h : consumeFront c front = .ok (events, s))
    (going : s.phase ≠ .ended) : Arrives c front events s := by
  unfold consumeFront at h
  split at h
  · cases h
  · next header v j read =>
      cases consumed : consume c { vocabulary := v } [.startDocument header] j with
      | error cause k =>
          rw [consumed] at h
          cases h
      | ok r k =>
          rw [consumed] at h
          cases h
          obtain ⟨taken, split, delimits⟩ := selfDelimiting_readHeader c _ _ _ read
          obtain ⟨completed, rfl, passes⟩ := passes_of_consume consumed going
          dsimp only at split
          rw [split]
          exact (arrives_of_header delimits.yields).passes passes

/-! ## One for two -/

/-- A run that succeeds does so wherever its octets lie. -/
theorem run_eq_ok_at {left : Octets} (h : run c s before ⟨rest, offset⟩ = .ok (after, left))
    (offset' : Nat) : run c s before ⟨rest, offset'⟩ = .ok (after, left) := by
  obtain ⟨taken, split, goesOn, -⟩ := delimited_of_run h
  dsimp only at split
  rw [split]
  exact goesOn left offset'

/-- The second half of a double terminator does what a second terminator would. -/
theorem run_doubleTerminator_iff {v : Vocabulary} {depth : Nat} {left : Octets}
    (first : Yields (step c s) [Mark.terminator] (completed, { vocabulary := v, depth }))
    (offset offset' : Nat) :
    run c s before ⟨Mark.doubleTerminator :: rest, offset⟩ = .ok (after, left) ↔
      run c s before ⟨Mark.terminator :: Mark.terminator :: rest, offset'⟩ =
        .ok (after, left) := by
  have double := (yields_doubleTerminator first).ok rest offset
  have single := first.ok (Mark.terminator :: rest) offset'
  have again := (yields_terminator c v depth).ok rest (offset' + [Mark.terminator].length)
  simp only [List.cons_append, List.nil_append] at double single again
  have same : before.appendList (completed ++ [(close depth).1]) =
      (before.appendList completed).appendList [(close depth).1] :=
    List.foldl_append
  rw [run_of_step double, run_of_step single]
  dsimp only
  rw [run_of_step again, same]
  cases depth with
  | zero => exact Iff.rfl
  | succ depth => exact ⟨fun ok => run_eq_ok_at ok _, fun ok => run_eq_ok_at ok _⟩

theorem conclude_eq_ok {result : Except CodecError (Array Event × Octets)} :
    conclude result = .ok events ↔ ∃ after, result = .ok (after, []) ∧ after.toList = events := by
  constructor
  · intro h
    unfold conclude at h
    split at h
    · cases h
    · next after rest =>
        split at h
        · next none =>
            cases h
            exact ⟨after, by rw [List.isEmpty_iff.1 none], rfl⟩
        · cases h
  · rintro ⟨after, rfl, rfl⟩
    rfl

/-- Outside of elements a double terminator is out of place, and behind the end of the document
another terminator is. -/
theorem conclude_of_outside {v : Vocabulary} :
    conclude (run c { vocabulary := v } before ⟨Mark.doubleTerminator :: rest, offset⟩) ≠
        .ok events ∧
      conclude (run c { vocabulary := v } before
        ⟨Mark.terminator :: Mark.terminator :: rest, offset⟩) ≠ .ok events := by
  refine ⟨?_, ?_⟩
  · obtain ⟨cause, j, refused⟩ : ∃ cause j, step c { vocabulary := v }
        ⟨Mark.doubleTerminator :: rest, offset⟩ = .error cause j := ⟨_, _, rfl⟩
    rw [run_of_error c refused]
    exact nofun
  · have ended := (yields_terminator c v 0).ok (Mark.terminator :: rest) offset
    simp only [List.cons_append, List.nil_append] at ended
    rw [run_of_step ended]
    exact nofun

/-- Wherever a terminator ends an item or a list of attributes, a double one does what two do. -/
theorem conclude_doubleTerminator_iff
    (awaited : s.phase = .children ∨ ∃ tag, s.phase = .attributes tag) :
    conclude (run c s before ⟨Mark.doubleTerminator :: rest, offset⟩) = .ok events ↔
      conclude (run c s before ⟨Mark.terminator :: Mark.terminator :: rest, offset'⟩) =
        .ok events := by
  have fused {completed : List Event} {v : Vocabulary} {depth : Nat}
      (first : Yields (step c s) [Mark.terminator] (completed, { vocabulary := v, depth })) :
      conclude (run c s before ⟨Mark.doubleTerminator :: rest, offset⟩) = .ok events ↔
        conclude (run c s before ⟨Mark.terminator :: Mark.terminator :: rest, offset'⟩) =
          .ok events := by
    simp only [conclude_eq_ok, run_doubleTerminator_iff first offset offset']
  obtain ⟨v, depth, phase⟩ := s
  rcases awaited with rfl | ⟨tag, rfl⟩
  · cases depth with
    | zero =>
        refine ⟨fun ok => ?_, fun ok => ?_⟩
        · exact absurd ok conclude_of_outside.1
        · exact absurd ok conclude_of_outside.2
    | succ depth => exact fused (yields_terminator c v (depth + 1))
  · exact fused (yields_endAttributes c v depth tag)

end Decoder

namespace Codec

open Decoder

/-- A decoder that awaits an item or an attribute goes on behind a double terminator as behind two
terminators: with any octets that follow, both documents are read or neither is, and the events
are the same. -/
theorem decode_doubleTerminator_iff (c : Codec) (front : Octets) (events : List Event) (s : State)
    (reached : consumeFront c front = .ok (events, s))
    (awaited : s.phase = .children ∨ ∃ tag, s.phase = .attributes tag) (rest : Octets)
    (all : List Event) :
    c.decode (front ++ Mark.doubleTerminator :: rest) = .ok all ↔
      c.decode (front ++ Mark.terminator :: Mark.terminator :: rest) = .ok all := by
  have going : s.phase ≠ .ended := by
    rcases awaited with children | ⟨tag, attributes⟩
    · rw [children]
      nofun
    · rw [attributes]
      nofun
  have arrives := arrives_of_consumeFront reached going
  rw [arrives.decode_eq, arrives.decode_eq]
  exact conclude_doubleTerminator_iff awaited

/-- A document with one element can end with two terminators as well. -/
theorem decode_doubleTerminator_iff_oneElement :
    ∃ v, consumeFront {} [0xE0, 0x00, 0x00, 0x01, 0x00, 0x3C, 0x00, 0x61] =
        .ok ([.startDocument {}, .startElement { localName := "a" } [] []],
          { vocabulary := v, depth := 1 }) ∧
      ({} : Codec).decode [0xE0, 0x00, 0x00, 0x01, 0x00, 0x3C, 0x00, 0x61, 0xF0, 0xF0] =
        .ok [.startDocument {}, .startElement { localName := "a" } [] [], .endElement,
          .endDocument] := by
  obtain ⟨v, inside⟩ := arrives_oneElement
  have reached := inside.consumeFront_eq
  exact ⟨v, reached,
    (decode_doubleTerminator_iff {} _ _ _ reached (.inl rfl) [] _).1 decode_oneElement⟩

end Codec

end BinaryXml
