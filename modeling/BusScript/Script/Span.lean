namespace BusScript

structure Span where
  line : Nat := 0
  col : Nat := 0
  len : Nat := 0
  deriving DecidableEq, Repr, Inhabited

namespace Span

def isKnown (s : Span) : Bool := s.line != 0

/-- Lengthens `s` to where `t` ends, if `t` starts on the same line and not before `s`. -/
def upTo (s t : Span) : Span :=
  if s.line = t.line ∧ s.col ≤ t.col then ⟨s.line, s.col, t.col + t.len - s.col⟩ else s

def text (s : Span) : String := s!"{s.line}:{s.col}"

end Span

end BusScript
