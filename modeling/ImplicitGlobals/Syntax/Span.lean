/-!
# Spans

Positions in a text count bytes of its UTF-8 form.
-/

namespace ImplicitGlobals

/-- The bytes from `start` up to, not including, `stop`. -/
structure Span where
  start : Nat
  stop : Nat
deriving DecidableEq, Repr, Inhabited

namespace Span

/-- The empty span at a position. -/
def point (position : Nat) : Span := ⟨position, position⟩

def isEmpty (s : Span) : Bool := s.stop ≤ s.start

end Span

end ImplicitGlobals
