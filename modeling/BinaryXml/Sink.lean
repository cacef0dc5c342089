import BinaryXml.Octets

/-!
# Sinks

A sink takes octets in blocks and keeps them in memory. Its capacity may be limited, and a block
that does not fit is refused as a whole.
-/

namespace BinaryXml

structure Sink where
  written : Array UInt8 := #[]
  capacity? : Option Nat := none
  /-- Whether octets can be made to leave the sink at the end. -/
  flushes : Bool := true
  deriving DecidableEq

namespace Sink

def fits (s : Sink) (block : Array UInt8) : Bool :=
  match s.capacity? with
  | some capacity => s.written.size + block.size ≤ capacity
  | none => true

/-- The error tells why the block was refused. -/
def write (s : Sink) (block : Array UInt8) : Except String Sink :=
  if s.fits block then .ok { s with written := s.written ++ block } else .error "sink full"

def flush (s : Sink) : Except String Unit :=
  if s.flushes then .ok () else .error "flush failed"

end Sink

end BinaryXml
