/-!
# Positions

A position is a line of a template source. The origin says which template: the path of its file, or its name if it is
held in memory.
-/

namespace Stencil

/-- A line of a template source. -/
structure Position where
  origin : String
  line : Nat
  deriving DecidableEq, Repr, Inhabited

/-- The wording of a position, as it stands in front of messages. -/
def Position.describe (p : Position) : String := p.origin ++ ":" ++ toString p.line

end Stencil
