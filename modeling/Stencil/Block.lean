import Stencil.Instruction

/-!
# Blocks

The content of a template is cut into blocks: named ones, and anonymous ones for what stands between them. The items of
a block are nodes, and calls of the block of the parent template, which are held as the instructions that they stand
for.
-/

namespace Stencil

/-- The name of a block; an anonymous block is numbered by its place among the blocks of its template. -/
inductive BlockName
  | anonymous (place : Nat)
  | named (name : String)
  deriving DecidableEq, Repr, Inhabited

namespace BlockName

/-- The wording of a block name. -/
def describe : BlockName → String
  | anonymous place => "<anonymous #" ++ toString place ++ ">"
  | named name => name

/-- The block is a named one. -/
def isNamed : BlockName → Bool
  | anonymous _ => false
  | named _ => true

end BlockName

/-- An item of a block. -/
inductive Item
  | node (node : Node)
  | super (line : Nat) (instructions : List Located)
  deriving DecidableEq, Repr

/-- A block of the template of the given origin. -/
structure Block where
  name : BlockName
  origin : String
  items : List Item
  deriving DecidableEq, Repr

/-- The instructions of an item. -/
def Item.instructions (origin : String) : Item → List Located
  | node n => (n.instruction? origin).toList
  | super _ instructions => instructions

/-- The instructions of a block. -/
def Block.instructions (b : Block) : List Located := b.items.flatMap (Item.instructions b.origin)

end Stencil
