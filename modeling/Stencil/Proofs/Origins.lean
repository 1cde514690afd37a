import Mathlib.Data.List.Basic
import Stencil.Inheritance
import Stencil.Proofs.Linking

/-!
# Where the parts of a template come from

Positions say which template they are in, and dependencies which file they were read from. Two loaders may give the
same texts from different places. What is `bare` does without these places: it tells templates apart by their names
alone. Whatever is looked up in bare data is the bare form of what would be found in the data themselves
(`Layer.block?_bare`, `Lineage.find?_bare`). Linking does not go by the places either
(`Program.exists_link_of_bare_eq`).
-/

namespace Stencil

/-! ## Data without its places -/

/-- The instruction and the line that it comes from. -/
def Located.bare (l : Located) : Located := { l with position.origin := "" }

/-- The item with its instructions bare. -/
def Item.bare : Item → Item
  | .node n => .node n
  | .super line instructions => .super line (instructions.map Located.bare)

/-- The block with its items bare. -/
def Block.bare (b : Block) : Block := { b with origin := "", items := b.items.map Item.bare }

/-- The layer with its blocks bare. -/
def Layer.bare (l : Layer) : Layer := { l with origin := "", blocks := l.blocks.map Block.bare }

/-- The name alone. -/
def Dependency.bare (d : Dependency) : Dependency := ⟨d.name, none, none⟩

/-- The name of the ancestor and its bare layer. -/
def Ancestor.bare (a : Ancestor) : Ancestor := ⟨a.dependency.bare, a.layer.bare⟩

/-- The lineage with its ancestors bare. -/
def Lineage.bare (l : Lineage) : Lineage := { l with origin := "", ancestors := l.ancestors.map Ancestor.bare }

/-- The draft with its lineage and its blocks bare. -/
def Draft.bare (d : Draft) : Draft where
  lineage := d.lineage.bare
  closed := d.closed.map Block.bare
  name := d.name
  items := d.items.map Item.bare

/-- The block set with its lineage and its blocks bare. -/
def BlockSet.bare (set : BlockSet) : BlockSet := ⟨set.lineage.bare, set.blocks.map Block.bare⟩

/-! ## Instructions -/

theorem Node.map_bare_instruction? (n : Node) (origin : String) :
    (n.instruction? origin).map Located.bare = n.instruction? "" := by
  obtain ⟨kind, line⟩ := n
  cases kind with
  | text content strip =>
    simp only [instruction?]
    generalize (if strip = true then Text.stripBlankRun content else (content, 0)) = stripped
    by_cases h : stripped.1 = ""
    · rw [if_pos h, if_pos h, Option.map_none]
    · rw [if_neg h, if_neg h, Option.map_some, Located.bare]
  | expression | escapedExpression | statement | comment | directive => rfl

theorem Item.instructions_bare (i : Item) (origin : String) :
    i.bare.instructions "" = (i.instructions origin).map Located.bare := by
  cases i with
  | node n =>
    simp only [bare, instructions]
    rw [← n.map_bare_instruction? origin, Option.toList_map]
  | super => rfl

@[simp] theorem Block.instructions_bare (b : Block) : b.bare.instructions = b.instructions.map Located.bare := by
  simp only [instructions, bare, List.flatMap_map, List.map_flatMap]
  exact List.flatMap_congr fun i _ => i.instructions_bare b.origin

/-- The instructions of a block, if there is one. -/
theorem Block.elim_map_bare (b : Option Block) :
    (b.map bare).elim [] instructions = (b.elim [] instructions).map Located.bare := by
  cases b with
  | none => rfl
  | some b => exact b.instructions_bare

/-! ## Layers and lineages -/

@[simp] theorem Layer.order_bare (l : Layer) : l.bare.order = l.order := by
  simp [order, bare, Block.bare, Function.comp_def]

@[simp] theorem Layer.block?_bare (l : Layer) (name : BlockName) :
    l.bare.block? name = (l.block? name).map Block.bare := by
  simp only [block?, bare, List.filter_map, List.getLast?_map]
  rfl

@[simp] theorem Layer.settles_bare (l : Layer) (name : BlockName) : l.bare.settles name = l.settles name := by
  rw [settles, settles, order_bare]
  rfl

/-- The block of a name in a layer, if there is one. -/
theorem Layer.map_bare_bind_block? (l : Option Layer) (name : BlockName) :
    (l.map bare).bind (fun layer => layer.block? name) = (l.bind fun layer => layer.block? name).map Block.bare := by
  cases l with
  | none => rfl
  | some l => exact l.block?_bare name

/-- The property of layers does not go by their places. -/
def Unplaced (stops : Layer → Bool) : Prop := ∀ layer : Layer, stops layer.bare = stops layer

theorem unplaced_const (b : Bool) : Unplaced fun _ => b := fun _ => rfl

theorem unplaced_settles (name : BlockName) : Unplaced fun layer => layer.settles name := fun layer =>
  layer.settles_bare name

namespace Lineage

variable (l : Lineage)

@[simp] theorem chain_bare : l.bare.chain = l.chain := rfl

@[simp] theorem parent_bare : l.bare.parent = l.parent := rfl

@[simp] theorem names_bare : l.bare.names = l.names := by
  simp [names, bare, Ancestor.bare, Dependency.bare, Function.comp_def]

theorem find?_bare {stops : Layer → Bool} (h : Unplaced stops) :
    l.bare.find? stops = (l.find? stops).map Layer.bare := by
  have hstops : ∀ a : Ancestor, (a.bare.layer.parent.isNone || stops a.bare.layer) =
      (a.layer.parent.isNone || stops a.layer) := fun a => congrArg (a.layer.parent.isNone || ·) (h a.layer)
  simp only [find?, bare, List.find?_map, Function.comp_def, hstops, Option.map_map]
  rfl

/-- The next parent is the same. -/
theorem next?_bare : l.bare.next?.map Prod.snd = l.next?.map Prod.snd := by
  simp only [next?, bare, List.getLast?_map]
  rcases l.ancestors.getLast? with _ | a
  · rcases l.parent with _ | p <;> rfl
  · rcases h : a.layer.parent with _ | p <;> simp [Ancestor.bare, Layer.bare, h]

@[simp] theorem bare_extend (as : List Ancestor) : (l.extend as).bare = l.bare.extend (as.map Ancestor.bare) := by
  simp [extend, bare]

/-- The next parent is refused for the same reason. -/
theorem isSome_refusal?_eq {l l' : Lineage} (h : l.bare = l'.bare) (origin origin' : String) (p : Parent) :
    (l.refusal? origin p).isSome = (l'.refusal? origin' p).isSome := by
  have hnames : l.names = l'.names := by rw [← names_bare, h, names_bare]
  unfold refusal?
  rw [hnames]
  split
  · rfl
  · split <;> rfl

end Lineage

/-! ## Drafts and block sets -/

namespace Draft

variable (d : Draft)

@[simp] theorem bare_start (chain : List String) (origin : String) (parent : Option Parent) :
    (start chain origin parent).bare = start chain "" parent := rfl

@[simp] theorem current_bare : d.bare.current = d.current.bare := by
  simp [current, bare, Block.bare, Lineage.bare]

@[simp] theorem blocks_bare : d.bare.blocks = d.blocks.map Block.bare := by
  rw [blocks, blocks, current_bare, List.map_reverse]
  rfl

@[simp] theorem layer_bare : d.bare.layer = d.layer.bare := by
  rw [layer, layer, Layer.bare, blocks_bare]
  rfl

@[simp] theorem bare_openBlock (name : BlockName) : (d.openBlock name).bare = d.bare.openBlock name := by
  rw [openBlock, openBlock, current_bare]
  rfl

@[simp] theorem bare_openAnonymous : d.openAnonymous.bare = d.bare.openAnonymous := by
  rw [openAnonymous, openAnonymous, bare_openBlock]
  simp [bare]

@[simp] theorem bare_push (item : Item) : (d.push item).bare = d.bare.push item.bare := rfl

variable {d} {d' : Draft}

theorem bare_lineage_eq (h : d.bare = d'.bare) : d.lineage.bare = d'.lineage.bare := congrArg lineage h

theorem bare_withLineage_eq {l l' : Lineage} (h : d.bare = d'.bare) (hl : l.bare = l'.bare) :
    { d with lineage := l }.bare = { d' with lineage := l' }.bare := by
  injection h with _ hclosed hname hitems
  simp only [bare, hl, hclosed, hname, hitems]

end Draft

/-! ## Linking -/

/-- Whether instructions are well nested does not depend on where they stand. -/
theorem wellNested_iff_of_bare_eq {as bs : List Located} (h : as.map Located.bare = bs.map Located.bare) :
    WellNested as ↔ WellNested bs := by
  have hinstructions : as.map Located.instruction = bs.map Located.instruction := by
    have := congrArg (List.map Located.instruction) h
    simpa [Located.bare, Function.comp_def] using this
  have hparses (ls : List Located) :
      (∀ l ∈ ls, l.instruction.Parses) ↔ ∀ i ∈ ls.map Located.instruction, i.Parses := List.forall_mem_map.symm
  have hmarks (ls : List Located) : marks ls = (ls.map Located.instruction).filterMap Instruction.mark? := by
    rw [List.filterMap_map]
    rfl
  rw [WellNested, WellNested, hparses, hparses, hmarks, hmarks, hinstructions]

/-- Instructions that link in one place do so in another. -/
theorem Program.exists_link_of_bare_eq {origin origin' : String} {as bs : List Located} {p : Program}
    (h : as.map Located.bare = bs.map Located.bare) (hp : link origin as = .ok p) :
    ∃ q, link origin' bs = .ok q := by
  rcases link_cases origin as with ⟨-, hwell⟩ | ⟨_, l, fault, -, -, herror⟩
  · rcases link_cases origin' bs with ⟨hok, -⟩ | ⟨place, _, _, hblamed, -⟩
    · exact hok
    · exact absurd hblamed (((wellNested_iff_of_bare_eq h).mp hwell).not_blamed place)
  · rw [hp] at herror
    cases herror

end Stencil
