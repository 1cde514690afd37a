import Stencil.Block
import Stencil.Source

/-!
# Lineages

A template that extends another one inherits its blocks. A layer is what one template contributes: its blocks in the
order in which they are opened, and the parent it names. A lineage is a template with the layers of its ancestors that
have been read so far, nearest first; only the last of them can name a parent that is still to be read (`next?`).
-/

namespace Stencil

/-- The parent that a template names, and the line on which it does. -/
structure Parent where
  name : String
  line : Nat
  deriving DecidableEq, Repr

/-- The blocks of one template and the parent it names. -/
structure Layer where
  origin : String
  parent : Option Parent
  blocks : List Block
  deriving DecidableEq, Repr

namespace Layer

/-- The names of the blocks in their order. A name that is opened twice stands there twice. -/
def order (l : Layer) : List BlockName := l.blocks.map Block.name

/-- The last block that is opened under a name. -/
def block? (l : Layer) (name : BlockName) : Option Block := (l.blocks.filter fun b => b.name = name).getLast?

/-- The layer settles what stands in the place of a block: it has no parent, or defines the block by name. -/
def settles (l : Layer) (name : BlockName) : Bool := l.parent.isNone || name.isNamed && l.order.contains name

end Layer

/-- The layer of an ancestor, and the source that it was read from. -/
structure Ancestor where
  dependency : Dependency
  layer : Layer
  deriving DecidableEq, Repr

/-- A template that is built, with the ancestors that have been read. The chain names the templates that are in the
course of being built, this one last. -/
structure Lineage where
  chain : List String
  origin : String
  parent : Option Parent
  ancestors : List Ancestor
  deriving DecidableEq, Repr

namespace Lineage

/-- The names along the chain and the ancestors. -/
def names (l : Lineage) : List String := l.chain ++ l.ancestors.map fun a => a.dependency.name

/-- The nearest ancestor with a property, or else the one that has no parent. -/
def find? (l : Lineage) (stops : Layer → Bool) : Option Layer :=
  (l.ancestors.find? fun a => a.layer.parent.isNone || stops a.layer).map Ancestor.layer

/-- The parent that is to be read next, and the origin of the template that names it. -/
def next? (l : Lineage) : Option (String × Parent) :=
  match l.ancestors.getLast? with
  | some a => a.layer.parent.map fun p => (a.layer.origin, p)
  | none => l.parent.map fun p => (l.origin, p)

/-- The ancestor is read, and behind it those that were read for its sake. -/
def extend (l : Lineage) (ancestors : List Ancestor) : Lineage := { l with ancestors := l.ancestors ++ ancestors }

/-- Why the next parent may not be read: its name is among those of the lineage, or there are as many as are
allowed. -/
def refusal? (l : Lineage) (origin : String) (p : Parent) : Option Error :=
  if l.names.contains p.name then some (.compilation ⟨origin, p.line⟩ (.cyclic l.names p.name))
  else if maxExtends ≤ l.names.length then some (.compilation ⟨origin, p.line⟩ .tooDeep)
  else none

end Lineage

end Stencil
