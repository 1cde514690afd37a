import Stencil.Lineage

/-!
# Inheritance

`Draft.build` walks over the nodes of a template and cuts them into blocks. Statements about inheritance act as follows.

* `extends` names the parent. All that stands before it is dropped.
* `block` opens a named block.
* `endblock` opens an anonymous block.
* `blocksuper` puts the block of the same name of the nearest ancestor that defines it into the open block, right away.

The result is a `BlockSet`. The order of its blocks is the order of the last ancestor, the one that has no parent. In
each place stands the block of the nearest template that defines it (`BlockSet.block`).

Ancestors are read when they are first needed and are kept (`Ascent`). Since a lineage names no template twice and has at
most `maxExtends` names, an ascent ends (`nearest`).
-/

namespace Stencil

/-- Work that may read further ancestors of a lineage. -/
abbrev Ascent (σ : Type) := Work Lineage σ

/-- How an ancestor is found: the nearest one with a property, or else the one that has no parent; none if the template
itself has no parent. -/
abbrev Ancestry (σ : Type) := (Layer → Bool) → Ascent σ (Option Layer)

/-- The block that a call of the parent's block stands for, from inside a block of the given name. An anonymous block
has no counterpart, but its parent is read all the same. -/
def parentBlock {σ : Type} (ancestor : Ancestry σ) (name : BlockName) (line : Nat) : Ascent σ (Option Block) := do
  let l ← Work.own
  if l.parent.isNone then throw (.superWithoutParent ⟨l.origin, line⟩ name.describe)
  match name with
  | .named _ => return (← ancestor fun layer => layer.settles name).bind fun layer => layer.block? name
  | .anonymous _ =>
    let _ ← ancestor fun _ => true
    return none

/-- The blocks of a template while its nodes are walked over: the closed ones, the last first, and the open one with its
items, the last first. -/
structure Draft where
  lineage : Lineage
  closed : List Block
  name : BlockName
  items : List Item
  deriving DecidableEq, Repr

namespace Draft

variable {σ : Type}

/-- Nothing but an open anonymous block. -/
def start (chain : List String) (origin : String) (parent : Option Parent) : Draft :=
  ⟨⟨chain, origin, parent, []⟩, [], .anonymous 0, []⟩

/-- The open block. -/
def current (d : Draft) : Block := ⟨d.name, d.lineage.origin, d.items.reverse⟩

/-- The blocks in their order. -/
def blocks (d : Draft) : List Block := (d.current :: d.closed).reverse

/-- Closes the open block and opens another one. -/
def openBlock (d : Draft) (name : BlockName) : Draft := { d with closed := d.current :: d.closed, name, items := [] }

/-- Closes the open block and opens an anonymous one. -/
def openAnonymous (d : Draft) : Draft := d.openBlock (.anonymous (d.closed.length + 1))

/-- Adds an item to the open block. -/
def push (d : Draft) (item : Item) : Draft := { d with items := item :: d.items }

/-- The place of the last block of a name. -/
def place? (d : Draft) (name : BlockName) : Option Nat :=
  ((d.current :: d.closed).findIdx? fun b => b.name = name).map (d.closed.length - ·)

/-- Takes up a node. -/
def add (ancestor : Ancestry σ) (d : Draft) (node : Node) : Load σ Draft := do
  match node.kind with
  | .directive (.inherits name) =>
    if let some p := d.lineage.parent then
      Load.warn (.repeatedExtends ⟨d.lineage.origin, node.line⟩ p.name name)
    return start d.lineage.chain d.lineage.origin (some ⟨name, node.line⟩)
  | .directive (.openBlock name) =>
    if let some place := d.place? (.named name) then
      Load.warn (.duplicateBlock d.lineage.origin name place)
    return d.openBlock (.named name)
  | .directive .closeBlock => return d.openAnonymous
  | .directive .superBlock =>
    let (block, lineage) ← (parentBlock ancestor d.name node.line).runFrom d.lineage
    return { d with lineage }.push (.super node.line (block.elim [] Block.instructions))
  | _ => return d.push (.node node)

/-- The blocks that nodes make up. The chain names the templates that are in the course of being built. -/
def build (ancestor : Ancestry σ) (chain : List String) (origin : String) (nodes : List Node) : Load σ Draft :=
  nodes.foldlM (add ancestor) (start chain origin none)

/-- The layer that a template contributes. -/
def layer (d : Draft) : Layer := ⟨d.lineage.origin, d.lineage.parent, d.blocks⟩

end Draft

/-- Finds an ancestor, and reads as many as that takes. A lineage that names no template twice and has at most
`maxExtends` names is exhausted in fewer steps than the bound that `ancestry` sets. -/
def nearest {σ : Type} (sources : Sources σ) : Nat → Ancestry σ
  | 0, _ => return none
  | steps + 1, stops => do
    let l ← Work.own
    match l.find? stops, l.next? with
    | some layer, _ => return some layer
    | none, none => return none
    | none, some (origin, p) =>
      if let some refusal := l.refusal? origin p then throw refusal
      let source ← Work.ofLoad (sources.source p.name)
      let tokens ← Work.ofLoad (Load.ofExcept (source.tokens sources.markup))
      let d ← Work.ofLoad <|
        Draft.build (nearest sources steps) (l.names ++ [p.name]) source.origin (Node.ofTokens tokens)
      Work.update fun l => l.extend (⟨source.dependency, d.layer⟩ :: d.lineage.ancestors)
      nearest sources steps stops

/-- How the ancestors of a template are found among sources. -/
def ancestry {σ : Type} (sources : Sources σ) : Ancestry σ := nearest sources (maxExtends + 1)

/-- The blocks of a template, with the ancestors that it inherits from. -/
structure BlockSet where
  lineage : Lineage
  blocks : List Block
  deriving DecidableEq, Repr

namespace BlockSet

variable {σ : Type}

/-- The block set that nodes make up. -/
def build (sources : Sources σ) (chain : List String) (origin : String) (nodes : List Node) : Load σ BlockSet := do
  let d ← Draft.build (ancestry sources) chain origin nodes
  return ⟨d.lineage, d.blocks⟩

/-- The layer of the template itself. -/
def layer (set : BlockSet) : Layer := ⟨set.lineage.origin, set.lineage.parent, set.blocks⟩

/-- The named blocks of the template itself. -/
def namedBlocks (set : BlockSet) : List Block := set.blocks.filter fun b => b.name.isNamed

/-- The order of the blocks, which is that of the last ancestor. -/
def order (sources : Sources σ) (set : BlockSet) : Ascent σ (List BlockName) :=
  return ((← ancestry sources fun _ => false).getD set.layer).order

/-- The block that stands in a place: that of the nearest template that defines it. -/
def block (sources : Sources σ) (set : BlockSet) (name : BlockName) : Ascent σ (Option Block) := do
  if set.layer.settles name then return set.layer.block? name
  return (← ancestry sources fun layer => layer.settles name).bind fun layer => layer.block? name

/-- The block that a call of the parent's block stands for, from inside a block of the given name. -/
def superBlock (sources : Sources σ) (name : BlockName) (line : Nat) : Ascent σ (Option Block) :=
  parentBlock (ancestry sources) name line

/-- The instructions in the place of a block. -/
def instructionsAt (sources : Sources σ) (set : BlockSet) (name : BlockName) : Ascent σ (List Located) :=
  return (← set.block sources name).elim [] Block.instructions

/-- Warns of the named blocks that have no place in the order. -/
def warnOrphans (set : BlockSet) (order : List BlockName) : Load σ Unit :=
  set.namedBlocks.forM fun b =>
    if order.contains b.name then pure () else Load.warn (.orphanBlock b.origin b.name.describe)

/-- The instructions of the template: those of the blocks in their order. -/
def instructions (sources : Sources σ) (set : BlockSet) : Ascent σ (List Located) := do
  let order ← set.order sources
  if set.lineage.parent.isSome then Work.ofLoad (set.warnOrphans order)
  return (← order.mapM (set.instructionsAt sources)).flatten

end BlockSet

end Stencil
