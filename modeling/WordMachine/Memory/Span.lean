/-!
# Memory/Span — a run of consecutive addresses
-/

namespace WordMachine

/-- The addresses from `start` on and below `stop`. -/
structure Span where
  start : Nat
  stop : Nat
  deriving DecidableEq, Repr

namespace Span

def contains (s : Span) (addr : Nat) : Bool := s.start ≤ addr && addr < s.stop

end Span

end WordMachine
