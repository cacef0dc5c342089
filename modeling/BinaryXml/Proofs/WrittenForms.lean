import BinaryXml.Proofs.EmissionSuccess
import BinaryXml.Proofs.RepresentationRoundTrip

/-!
# Written forms

The three forms of a string share their first octets among flags, manners of packing, identifiers
and lengths. Whatever a form admits, it writes; and it reads that back from the front of any octets,
leaving those that follow. So two representations that are received differently are written
differently, and neither is written as a beginning of the other.
-/

namespace BinaryXml

namespace Representation

namespace Form

/-- A chunk is read once its first octet has told that it is one. -/
def read : Form → Parser Representation
  | identifying => readIdentifying
  | nonIdentifying => readNonIdentifying
  | chunk => do readChunk (← Parser.octet)

/-- What a reader of the form is given, since not every form has room for the demand to enter a
string. -/
def received : Form → Representation → Representation
  | identifying => asIdentifying
  | nonIdentifying => asNonIdentifying
  | chunk => id

variable {form : Form} {encoding encoding' : CharacterEncoding} {r other : Representation}
  {octets octets' : Octets}

theorem yields_read (h : (form.emit encoding r).toExcept = .ok octets) :
    Yields form.read octets (form.received r) := by
  cases form with
  | identifying => exact yields_readIdentifying h
  | nonIdentifying => exact yields_readNonIdentifying h
  | chunk =>
      obtain ⟨first, tail, rfl, -, yields⟩ := yields_readChunk h
      exact (Parser.yields_octet first).bind.yields yields

/-- A form writes exactly what it admits, and reads it back from in front of any other octets,
up to where these begin. -/
theorem read_emit (form : Form) (encoding : CharacterEncoding) (r : Representation) :
    (form.Admits encoding r ↔ ∃ octets, (form.emit encoding r).toExcept = .ok octets) ∧
      ∀ octets, (form.emit encoding r).toExcept = .ok octets → ∀ following offset,
        form.read ⟨octets ++ following, offset⟩ =
          .ok (form.received r) ⟨following, offset + octets.length⟩ := by
  refine ⟨?_, fun octets emitted following offset => (yields_read emitted).ok following offset⟩
  rw [← succeeds_emit_iff, Emission.succeeds_iff]

theorem read_emit_algorithm :
    chunk.Admits .utf16 (packed .algorithm 0xA5 [1, 2, 3] true) ∧
      (chunk.emit .utf16 (packed .algorithm 0xA5 [1, 2, 3] true)).toExcept =
        .ok [0x9E, 0x96, 0x00, 1, 2, 3] ∧
      ∀ following offset, chunk.read ⟨[0x9E, 0x96, 0x00, 1, 2, 3] ++ following, offset⟩ =
        .ok (packed .algorithm 0xA5 [1, 2, 3] true) ⟨following, offset + 6⟩ := by
  have whole := read_emit chunk .utf16 (packed .algorithm 0xA5 [1, 2, 3] true)
  have emitted : (chunk.emit .utf16 (packed .algorithm 0xA5 [1, 2, 3] true)).toExcept =
      .ok [0x9E, 0x96, 0x00, 1, 2, 3] := rfl
  exact ⟨whole.1.2 ⟨_, emitted⟩, emitted, whole.2 _ emitted⟩

/-- What a form writes is no beginning of anything else that it writes. -/
theorem eq_of_append_eq {following following' : Octets}
    (h : (form.emit encoding r).toExcept = .ok octets)
    (h' : (form.emit encoding' other).toExcept = .ok octets')
    (same : octets ++ following = octets' ++ following') :
    form.received r = form.received other ∧ octets = octets' := by
  have first := (yields_read h).ok following 0
  rw [same, (yields_read h').ok following' 0] at first
  injection first with alike rest
  injection rest with rest
  subst rest
  exact ⟨alike.symm, List.append_cancel_right same⟩

end Form

end Representation

end BinaryXml
