import Stencil.Node
import Stencil.Position
import Stencil.Text.BlankRun

/-!
# Instructions

What a template does is a list of instructions, each with the position that it comes from. `Node.instruction?` gives
the instruction of a node. A comment becomes an instruction without effect that counts its line breaks; a text behind a
strip marker loses its leading blank run, and its position moves on by the lines removed.
-/

namespace Stencil

/-- A step of a template. -/
inductive Instruction
  | literal (text : String)
  | expression (code : String) (escaped : Bool)
  | statement (code : String)
  | blankLines (count : Nat)
  deriving DecidableEq, Repr, Inhabited

/-- An instruction and the position that it comes from. -/
structure Located where
  instruction : Instruction
  position : Position
  deriving DecidableEq, Repr, Inhabited

/-- The instruction of a node in a template of the given origin. Directives have none, nor has text of which nothing is
left. -/
def Node.instruction? (origin : String) (node : Node) : Option Located :=
  let here := fun i => some ⟨i, ⟨origin, node.line⟩⟩
  match node.kind with
  | .text content strip =>
    let (text, removed) := if strip then Text.stripBlankRun content else (content, 0)
    if text = "" then none else some ⟨.literal text, ⟨origin, node.line + removed⟩⟩
  | .expression code => here (.expression code false)
  | .escapedExpression code => here (.expression code true)
  | .statement code => here (.statement code)
  | .comment body => here (.blankLines (Text.lineFeeds body.toList))
  | .directive _ => none

end Stencil
