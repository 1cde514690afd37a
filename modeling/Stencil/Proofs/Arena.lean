import Mathlib.Logic.Function.Basic
import Stencil.Proofs.Fetching
import Stencil.Proofs.Verbatim

/-!
# Blocks in tables

While nodes are walked over, the blocks of a template can be kept in tables: the blocks in an arena, their names in an
order of their own, an index from names to slots, and the slot of the open block. `Arena.add` brings the tables up to
date, node by node. The tables are always those that can be read off the draft (`Draft.arena`), and both fail alike
(`Arena.build_eq`).

What is always true of the tables is `Arena.Sound`. Opening a block and adding an item keep it (`Sound.openBlock`,
`Sound.push`), so every node does (`Sound.add`), and so do all nodes in a row (`Sound.foldlM`). `blocks_hold_nodes` puts
this together. It also says that, if no node names a parent or calls its block, the blocks hold the other nodes, all of
them and in their order.
-/

namespace Stencil

variable {σ : Type}

/-! ## The tables -/

/-- The blocks of a template in tables. -/
structure Arena where
  lineage : Lineage
  /-- The blocks, each in its slot. -/
  blocks : List Block
  /-- The names of the blocks. -/
  order : List BlockName
  /-- The slot in which a name is found. -/
  index : BlockName → Option Nat
  /-- The slot of the open block. -/
  opened : Nat

namespace Arena

/-- Opens a block in the next slot. Its name is found there from now on. -/
def openBlock (a : Arena) (name : BlockName) : Arena where
  lineage := a.lineage
  blocks := a.blocks ++ [⟨name, a.lineage.origin, []⟩]
  order := a.order ++ [name]
  index := Function.update a.index name (some a.blocks.length)
  opened := a.blocks.length

/-- Opens an anonymous block. -/
def openAnonymous (a : Arena) : Arena := a.openBlock (.anonymous a.blocks.length)

/-- No block at all. -/
def empty (chain : List String) (origin : String) (parent : Option Parent) : Arena :=
  ⟨⟨chain, origin, parent, []⟩, [], [], fun _ => none, 0⟩

/-- Nothing but an open anonymous block. -/
def start (chain : List String) (origin : String) (parent : Option Parent) : Arena :=
  (empty chain origin parent).openAnonymous

/-- Adds an item to the open block. -/
def push (a : Arena) (item : Item) : Arena :=
  { a with blocks := a.blocks.modify a.opened fun b => { b with items := b.items ++ [item] } }

/-- The name of the open block. -/
def openName (a : Arena) : BlockName := (a.blocks[a.opened]?).elim (.anonymous 0) Block.name

/-- Takes up a node. -/
def add (ancestor : Ancestry σ) (a : Arena) (node : Node) : Load σ Arena := do
  match node.kind with
  | .directive (.inherits name) =>
    if let some p := a.lineage.parent then
      Load.warn (.repeatedExtends ⟨a.lineage.origin, node.line⟩ p.name name)
    return start a.lineage.chain a.lineage.origin (some ⟨name, node.line⟩)
  | .directive (.openBlock name) =>
    if let some slot := a.index (.named name) then
      Load.warn (.duplicateBlock a.lineage.origin name slot)
    return a.openBlock (.named name)
  | .directive .closeBlock => return a.openAnonymous
  | .directive .superBlock =>
    let (block, lineage) ← (parentBlock ancestor a.openName node.line).runFrom a.lineage
    return { a with lineage }.push (.super node.line (block.elim [] Block.instructions))
  | _ => return a.push (.node node)

/-- The tables that nodes make up. -/
def build (ancestor : Ancestry σ) (chain : List String) (origin : String) (nodes : List Node) : Load σ Arena :=
  nodes.foldlM (add ancestor) (start chain origin none)

end Arena

/-- The tables that are read off a draft. -/
def Draft.arena (d : Draft) : Arena := ⟨d.lineage, d.blocks, d.layer.order, d.place?, d.closed.length⟩

/-! ## The tables show the draft -/

section Shown

variable {ancestor : Ancestry σ} {d : Draft} {node : Node}

theorem Draft.blocks_eq (d : Draft) : d.blocks = d.closed.reverse ++ [d.current] := List.reverse_cons

theorem Draft.length_blocks (d : Draft) : d.blocks.length = d.closed.length + 1 := by
  rw [blocks, List.length_reverse, List.length_cons]

/-- In the next slot, the new block is found under its name. -/
theorem Draft.place?_openBlock (d : Draft) (name : BlockName) :
    (d.openBlock name).place? = Function.update d.place? name (some d.blocks.length) := by
  funext other
  unfold place?
  rw [length_blocks, Function.update_apply, List.findIdx?_cons]
  by_cases h : name = other
  · subst h
    simp [openBlock, current]
  · have hfound : (d.openBlock name).current.name ≠ other := h
    rw [decide_eq_false hfound, if_neg Bool.false_ne_true, if_neg (Ne.symm h), Option.map_map]
    refine congrArg (Option.map · _) (funext fun i => ?_)
    exact Nat.add_sub_add_right d.closed.length 1 i

theorem Draft.arena_openBlock (d : Draft) (name : BlockName) : (d.openBlock name).arena = d.arena.openBlock name := by
  have hblocks : (d.openBlock name).blocks = d.blocks ++ [⟨name, d.lineage.origin, []⟩] := List.reverse_cons
  rw [Arena.openBlock, arena, Layer.order, place?_openBlock]
  dsimp only [layer, arena]
  rw [hblocks, List.map_append]
  rw [length_blocks]
  rfl

theorem Draft.arena_start (chain : List String) (origin : String) (parent : Option Parent) :
    (start chain origin parent).arena = Arena.start chain origin parent := by
  have hplace : (start chain origin parent).place? = Function.update (fun _ => none) (.anonymous 0) (some 0) := by
    funext name
    rw [place?, Function.update_apply, List.findIdx?_cons]
    by_cases h : BlockName.anonymous 0 = name
    · simp [start, current, ← h]
    · simp [start, current, h, Ne.symm h]
  rw [arena, hplace]
  rfl

theorem modify_concat {α : Type} (f : α → α) (as : List α) (a : α) :
    (as ++ [a]).modify as.length f = as ++ [f a] := by
  induction as with
  | nil => rfl
  | cons b as ih => rw [List.cons_append, List.length_cons, List.modify_succ_cons, ih, List.cons_append]

/-- The open block, which is in the last slot, gets the item. -/
theorem Draft.blocks_push (d : Draft) (item : Item) :
    (d.push item).blocks = d.blocks.modify d.closed.length fun b => { b with items := b.items ++ [item] } := by
  rw [blocks_eq d, ← List.length_reverse, modify_concat, blocks_eq]
  simp [push, current]

theorem Draft.arena_push (d : Draft) (item : Item) : (d.push item).arena = d.arena.push item := by
  have horder : (d.push item).layer.order = d.layer.order := by
    simp [Layer.order, layer, blocks_eq, push, current]
  have hplace : (d.push item).place? = d.place? := by
    funext name
    rw [place?, place?, List.findIdx?_cons, List.findIdx?_cons]
    rfl
  rw [Arena.push, arena, horder, hplace, blocks_push]
  rfl

theorem Draft.openName_arena (d : Draft) : d.arena.openName = d.name := by
  have hlast : d.blocks[d.closed.length]? = some d.current := by
    rw [blocks_eq, ← List.length_reverse, List.getElem?_concat_length]
  rw [Arena.openName, arena, hlast]
  rfl

/-- The search for a parent's block leaves the origin of a template as it was. -/
theorem origin_parentBlock (hf : Ancestry.Extends ancestor) {name : BlockName} {line : Nat} {l : Lineage}
    {s s' : Session σ} {r : Option Block × Lineage}
    (h : ((parentBlock ancestor name line).runFrom l).run.run s = (.ok r, s')) : r.2.origin = l.origin := by
  by_cases hparent : l.parent.isSome
  · rw [runFrom_parentBlock_of_isSome _ _ _ hparent] at h
    obtain ⟨⟨found, l'⟩, s₁, hrun, h⟩ := of_run_bind_eq_ok h
    obtain ⟨as, rfl⟩ := hf _ _ _ _ _ _ (Work.of_run_runFrom hrun)
    cases h
    rfl
  · rw [runFrom_parentBlock_of_isNone _ _ _ (by simpa using hparent)] at h
    cases h

/-- A lineage of the same origin changes nothing else in the tables. -/
theorem Draft.arena_withLineage (d : Draft) {l : Lineage} (h : l.origin = d.lineage.origin) :
    { d with lineage := l }.arena = { d.arena with lineage := l } := by
  have hcurrent : { d with lineage := l }.current = d.current := by rw [current, current, h]
  have hblocks : { d with lineage := l }.blocks = d.blocks := by rw [blocks, blocks, hcurrent]
  have hplace : { d with lineage := l }.place? = d.place? := by
    funext name
    rw [place?, place?, hcurrent]
  rw [arena, hplace, hblocks, Layer.order, layer, hblocks]
  rfl

/-- A node that is taken up changes the tables as it changes the draft. -/
theorem Arena.add_eq (hf : Ancestry.Extends ancestor) (d : Draft) (node : Node) :
    d.arena.add ancestor node = (do return (← d.add ancestor node).arena) := by
  obtain ⟨kind, line⟩ := node
  unfold add Draft.add
  cases kind with
  | text | expression | escapedExpression | statement | comment => rw [pure_bind, Draft.arena_push]
  | directive directive =>
    cases directive with
    | inherits name =>
      dsimp only
      rw [← Draft.arena_start, show d.arena.lineage = d.lineage from rfl]
      cases d.lineage.parent with
      | none => rw [pure_bind]
      | some p => simp only [bind_assoc, pure_bind]
    | openBlock name =>
      dsimp only
      rw [← Draft.arena_openBlock, show d.arena.index = d.place? from rfl,
        show d.arena.lineage = d.lineage from rfl]
      cases d.place? (.named name) with
      | none => rw [pure_bind]
      | some slot => simp only [bind_assoc, pure_bind]
    | closeBlock =>
      have hslot : d.arena.blocks.length = d.closed.length + 1 := d.length_blocks
      rw [pure_bind, Draft.openAnonymous, Draft.arena_openBlock, openAnonymous, hslot]
    | superBlock =>
      dsimp only
      rw [Draft.openName_arena, bind_assoc]
      refine bind_congr_of_run fun s r s' hrun => ?_
      have horigin : r.2.origin = d.lineage.origin := origin_parentBlock hf hrun
      rw [pure_bind, Draft.arena_push, Draft.arena_withLineage d horigin]

theorem Arena.foldlM_add_eq (hf : Ancestry.Extends ancestor) (nodes : List Node) (d : Draft) :
    nodes.foldlM (add ancestor) d.arena = (do return (← nodes.foldlM (Draft.add ancestor) d).arena) := by
  induction nodes generalizing d with
  | nil => rfl
  | cons node nodes ih =>
    rw [List.foldlM_cons, List.foldlM_cons, add_eq hf, bind_assoc, bind_assoc]
    refine bind_congr fun d' => ?_
    rw [pure_bind, ih]

/-- The tables that nodes make up are those of the draft that they make up. -/
theorem Arena.build_eq (hf : Ancestry.Extends ancestor) (chain : List String) (origin : String) (nodes : List Node) :
    build ancestor chain origin nodes = (do return (← Draft.build ancestor chain origin nodes).arena) := by
  rw [build, ← Draft.arena_start, foldlM_add_eq hf, Draft.build]

end Shown

/-! ## What is always true of the tables -/

/-- The item is no directive. -/
def Item.Plain (item : Item) : Prop := ∀ node, item = .node node → node.Plain

/-- The slot is the last one of the name. -/
structure BlockName.LastIn (name : BlockName) (names : List BlockName) (slot : Nat) : Prop where
  here : names[slot]? = some name
  last : ∀ later, slot < later → names[later]? ≠ some name

namespace BlockName

variable {names : List BlockName} {name other : BlockName} {slot : Nat}

theorem getElem?_concat_iff :
    (names ++ [name])[slot]? = some other ↔ names[slot]? = some other ∨ slot = names.length ∧ name = other := by
  rcases Nat.lt_or_ge slot names.length with h | h
  · rw [List.getElem?_append_left h]
    exact ⟨.inl, fun hor => hor.resolve_right fun hend => h.ne hend.1⟩
  · rw [List.getElem?_append_right h, List.getElem?_eq_none h, List.getElem?_singleton]
    simp only [reduceCtorEq, false_or, Option.ite_none_right_eq_some, Option.some.injEq, Nat.sub_eq_zero_iff_le]
    exact and_congr_left fun _ => ⟨fun hle => Nat.le_antisymm hle h, fun heq => heq.le⟩

/-- A name that is put behind the others is the last one of its kind. -/
theorem lastIn_concat_self : name.LastIn (names ++ [name]) slot ↔ slot = names.length := by
  constructor
  · intro h
    rcases getElem?_concat_iff.mp h.here with hslot | ⟨hslot, -⟩
    · obtain ⟨hlt, -⟩ := List.getElem?_eq_some_iff.mp hslot
      exact absurd List.getElem?_concat_length (h.last names.length hlt)
    · exact hslot
  · rintro rfl
    refine ⟨List.getElem?_concat_length, fun later hlater => ?_⟩
    rw [List.getElem?_eq_none (by rw [List.length_append, List.length_singleton]; exact hlater)]
    exact nofun

/-- The other names are where they were. -/
theorem lastIn_concat_of_ne (hne : name ≠ other) : other.LastIn (names ++ [name]) slot ↔ other.LastIn names slot := by
  have hsame (i : Nat) : (names ++ [name])[i]? = some other ↔ names[i]? = some other := by
    rw [getElem?_concat_iff]
    exact or_iff_left fun h => hne h.2
  exact ⟨fun h => ⟨(hsame slot).mp h.here, fun later hlater heq => h.last later hlater ((hsame later).mpr heq)⟩,
    fun h => ⟨(hsame slot).mpr h.here, fun later hlater heq => h.last later hlater ((hsame later).mp heq)⟩⟩

end BlockName

namespace Arena

/-- The tables fit together. -/
structure Consistent (a : Arena) : Prop where
  order_eq : a.order = a.blocks.map Block.name
  eq_of_anonymous : ∀ slot n, a.order[slot]? = some (BlockName.anonymous n) → n = slot
  index_eq_some_iff : ∀ name slot, a.index name = some slot ↔ name.LastIn a.order slot
  index_isSome_iff : ∀ name, (a.index name).isSome ↔ name ∈ a.order
  plain : ∀ b ∈ a.blocks, ∀ item ∈ b.items, item.Plain

/-- The tables fit together, and the last block is open. -/
structure Sound (a : Arena) : Prop extends a.Consistent where
  length_eq : a.blocks.length = a.opened + 1

variable {ancestor : Ancestry σ} {a a' : Arena} {node : Node} {s s' : Session σ}

theorem consistent_empty (chain : List String) (origin : String) (parent : Option Parent) :
    (empty chain origin parent).Consistent where
  order_eq := rfl
  eq_of_anonymous := nofun
  index_eq_some_iff _ _ := ⟨nofun, fun h => nomatch h.here⟩
  index_isSome_iff _ := ⟨nofun, nofun⟩
  plain := nofun

/-- A block of any name may be opened, but an anonymous one has to be named after its slot. -/
theorem Consistent.openBlock (h : a.Consistent) {name : BlockName}
    (hname : ∀ n, name = .anonymous n → n = a.blocks.length) : (a.openBlock name).Sound where
  order_eq := by
    rw [Arena.openBlock, h.order_eq, List.map_append]
    rfl
  eq_of_anonymous := by
    intro slot n hslot
    rcases BlockName.getElem?_concat_iff.mp hslot with hslot | ⟨rfl, heq⟩
    · exact h.eq_of_anonymous slot n hslot
    · rw [hname n heq, h.order_eq, List.length_map]
  index_eq_some_iff := by
    intro other slot
    dsimp only [Arena.openBlock]
    rw [Function.update_apply]
    split
    · next heq =>
      rw [heq, BlockName.lastIn_concat_self, h.order_eq, List.length_map, Option.some.injEq, eq_comm]
    · next hne => rw [BlockName.lastIn_concat_of_ne (Ne.symm hne), h.index_eq_some_iff]
  index_isSome_iff := by
    intro other
    dsimp only [Arena.openBlock]
    rw [Function.update_apply, List.mem_append, List.mem_singleton]
    split
    · next heq => exact iff_of_true rfl (.inr heq)
    · next hne => rw [h.index_isSome_iff, or_iff_left hne]
  length_eq := List.length_append
  plain := by
    intro b hb item hitem
    rcases List.mem_append.mp hb with hb | hb
    · exact h.plain b hb item hitem
    · rw [List.mem_singleton.mp hb] at hitem
      cases hitem

theorem Consistent.openAnonymous (h : a.Consistent) : a.openAnonymous.Sound :=
  h.openBlock fun _ hn => (BlockName.anonymous.inj hn).symm

theorem sound_start (chain : List String) (origin : String) (parent : Option Parent) :
    (start chain origin parent).Sound := (consistent_empty chain origin parent).openAnonymous

/-- A block that gets an item keeps its name, and no directive becomes an item. -/
theorem Sound.push (h : a.Sound) {item : Item} (hitem : item.Plain) : (a.push item).Sound where
  order_eq := by
    refine h.order_eq.trans (List.ext_getElem? fun slot => ?_)
    simp only [Arena.push, List.getElem?_map, List.getElem?_modify]
    cases a.blocks[slot]? with
    | none => rfl
    | some b =>
      rw [Option.map_eq_map, Option.map_some, Option.map_some, Option.map_some]
      split <;> rfl
  eq_of_anonymous := h.eq_of_anonymous
  index_eq_some_iff := h.index_eq_some_iff
  index_isSome_iff := h.index_isSome_iff
  length_eq := (List.length_modify ..).trans h.length_eq
  plain := by
    intro b hb other hother
    obtain ⟨slot, hslot⟩ := List.mem_iff_getElem?.mp hb
    rw [Arena.push, List.getElem?_modify] at hslot
    obtain ⟨b', hb', rfl⟩ := Option.map_eq_some_iff.mp hslot
    have hold := h.plain b' (List.mem_of_getElem? hb')
    split at hother
    · rcases List.mem_append.mp hother with hother | hother
      · exact hold other hother
      · rw [List.mem_singleton.mp hother]
        exact hitem
    · exact hold other hother

theorem Sound.withLineage (h : a.Sound) (l : Lineage) : { a with lineage := l }.Sound :=
  ⟨⟨h.order_eq, h.eq_of_anonymous, h.index_eq_some_iff, h.index_isSome_iff, h.plain⟩, h.length_eq⟩

/-- Every node that is taken up keeps the tables sound. -/
theorem Sound.add (h : a.Sound) (hadd : (a.add ancestor node).run.run s = (.ok a', s')) : a'.Sound := by
  obtain ⟨kind, line⟩ := node
  unfold Arena.add at hadd
  cases kind with
  | text | expression | escapedExpression | statement | comment =>
    cases hadd
    refine h.push ?_
    rintro node ⟨⟩ d hd
    cases hd
  | directive directive =>
    cases directive with
    | inherits name =>
      dsimp only at hadd
      split at hadd
      all_goals
        cases hadd
        exact sound_start ..
    | openBlock name =>
      dsimp only at hadd
      split at hadd
      all_goals
        cases hadd
        exact h.openBlock nofun
    | closeBlock =>
      cases hadd
      exact h.openAnonymous
    | superBlock =>
      obtain ⟨⟨block, l⟩, s₁, -, hadd⟩ := of_run_bind_eq_ok hadd
      cases hadd
      exact (h.withLineage l).push nofun

theorem Sound.foldlM (h : a.Sound) {nodes : List Node}
    (hnodes : (nodes.foldlM (Arena.add ancestor) a).run.run s = (.ok a', s')) : a'.Sound := by
  induction nodes generalizing a s with
  | nil =>
    cases hnodes
    exact h
  | cons node nodes ih =>
    rw [List.foldlM_cons] at hnodes
    obtain ⟨b, s₁, hadd, hnodes⟩ := of_run_bind_eq_ok hnodes
    exact ih (h.add hadd) hnodes

/-- What is found under a name is the last block of that name. -/
theorem Sound.getLast?_filter (h : a.Sound) (name : BlockName) :
    (a.blocks.filter fun b => b.name = name).getLast? = (a.index name).bind fun slot => a.blocks[slot]? := by
  rcases hindex : a.index name with _ | slot
  · have hname : ∀ b ∈ a.blocks, ¬ b.name = name := by
      rintro b hb rfl
      have hmem : b.name ∈ a.order := h.order_eq ▸ List.mem_map_of_mem hb
      rw [← h.index_isSome_iff, hindex] at hmem
      cases hmem
    rw [List.filter_eq_nil_iff.mpr (by simpa using hname)]
    rfl
  · obtain ⟨hslot, hlast⟩ := (h.index_eq_some_iff name slot).mp hindex
    rw [h.order_eq, List.getElem?_map] at hslot
    obtain ⟨b, hb, hname⟩ := Option.map_eq_some_iff.mp hslot
    obtain ⟨hlt, hb'⟩ := List.getElem?_eq_some_iff.mp hb
    have hlater : ∀ c ∈ a.blocks.drop (slot + 1), ¬ c.name = name := by
      intro c hc heq
      obtain ⟨i, hi⟩ := List.mem_iff_getElem?.mp hc
      rw [List.getElem?_drop] at hi
      refine hlast (slot + 1 + i) (by omega) ?_
      rw [h.order_eq, List.getElem?_map, hi, Option.map_some, heq]
    have hblocks : a.blocks = a.blocks.take slot ++ b :: a.blocks.drop (slot + 1) := by
      rw [← hb', ← List.drop_eq_getElem_cons, List.take_append_drop]
    have hbehind : (a.blocks.drop (slot + 1)).filter (fun b => b.name = name) = [] :=
      List.filter_eq_nil_iff.mpr (by simpa using hlater)
    rw [Option.bind_some, hb, hblocks, List.filter_append, List.filter_cons_of_pos (by simpa using hname), hbehind,
      List.getLast?_concat]

end Arena

/-! ## The blocks hold the nodes -/

/-- The directive of a node. -/
def Node.directive? (node : Node) : Option Directive :=
  match node.kind with
  | .directive d => some d
  | _ => none

/-- The node neither names a parent nor calls its block. -/
def Node.Local (node : Node) : Prop := node.parent? = none ∧ node.kind ≠ .directive .superBlock

instance : DecidablePred Node.Local := fun node => inferInstanceAs (Decidable (node.parent? = none ∧ _))

namespace Draft

variable {ancestor : Ancestry σ} {node : Node} {nodes : List Node}

/-- A new block holds nothing. -/
theorem flatMap_items_openBlock (d : Draft) (name : BlockName) :
    (d.openBlock name).blocks.flatMap Block.items = d.blocks.flatMap Block.items := by
  have hblocks : (d.openBlock name).blocks = d.blocks ++ [⟨name, d.lineage.origin, []⟩] := List.reverse_cons
  rw [hblocks, List.flatMap_append, List.flatMap_singleton, List.append_nil]

/-- The open block is the last one, so that an item goes behind all others. -/
theorem flatMap_items_push (d : Draft) (item : Item) :
    (d.push item).blocks.flatMap Block.items = d.blocks.flatMap Block.items ++ [item] := by
  rw [blocks_eq, blocks_eq]
  simp [push, current]

/-- A node goes behind all others, and a block that is opened or closed moves nothing. -/
theorem exists_run_add (h : node.Local) (d : Draft) (s : Session σ) :
    ∃ d' s', (d.add ancestor node).run.run s = (.ok d', s') ∧ d'.blocks.flatMap Block.items =
      d.blocks.flatMap Block.items ++ ([node].filter fun n => n.directive?.isNone).map .node := by
  obtain ⟨kind, line⟩ := node
  unfold add
  cases kind with
  | text | expression | escapedExpression | statement | comment => exact ⟨_, _, rfl, d.flatMap_items_push _⟩
  | directive directive =>
    have hsame : d.blocks.flatMap Block.items ++ ([⟨.directive directive, line⟩].filter fun n : Node =>
        n.directive?.isNone).map .node = d.blocks.flatMap Block.items := List.append_nil _
    rw [hsame]
    cases directive with
    | inherits name => cases h.1
    | superBlock => exact absurd rfl h.2
    | openBlock name =>
      dsimp only
      split <;> exact ⟨_, _, rfl, d.flatMap_items_openBlock _⟩
    | closeBlock => exact ⟨_, _, rfl, d.flatMap_items_openBlock _⟩

theorem exists_run_foldlM (h : ∀ node ∈ nodes, node.Local) (d : Draft) (s : Session σ) :
    ∃ d' s', (nodes.foldlM (add ancestor) d).run.run s = (.ok d', s') ∧ d'.blocks.flatMap Block.items =
      d.blocks.flatMap Block.items ++ (nodes.filter fun n => n.directive?.isNone).map .node := by
  induction nodes generalizing d s with
  | nil => exact ⟨d, s, rfl, (List.append_nil _).symm⟩
  | cons node nodes ih =>
    obtain ⟨hnode, hnodes⟩ := List.forall_mem_cons.mp h
    obtain ⟨d₁, s₁, hadd, hitems⟩ := exists_run_add hnode d s
    obtain ⟨d', s', hrun, hitems'⟩ := ih hnodes d₁ s₁
    refine ⟨d', s', ?_, ?_⟩
    · rw [List.foldlM_cons, run_bind_of_ok hadd, hrun]
    · rw [hitems', hitems, List.append_assoc, ← List.map_append, ← List.filter_append, List.singleton_append]

end Draft

/-- **The tables of the blocks stay sound**, whatever nodes have been walked over, and nothing that stands in a template
is lost, doubled or moved. -/
theorem blocks_hold_nodes (sources : Sources σ) (steps : Nat) (chain : List String) (origin : String) :
    (∀ nodes, Arena.build (nearest sources steps) chain origin nodes =
        (do return (← Draft.build (nearest sources steps) chain origin nodes).arena)) ∧
      (∀ front back d (s s' : Session σ),
        (Draft.build (nearest sources steps) chain origin front).run.run s = (.ok d, s') →
          (Draft.build (nearest sources steps) chain origin (front ++ back)).run.run s =
              (back.foldlM (Draft.add (nearest sources steps)) d).run.run s' ∧
            d.arena.Sound ∧
            ∀ name, d.layer.block? name = (d.arena.index name).bind fun slot => d.arena.blocks[slot]?) ∧
      ∀ nodes (s : Session σ), (∀ node ∈ nodes, node.Local) →
        ∃ d s', (Draft.build (nearest sources steps) chain origin nodes).run.run s = (.ok d, s') ∧
          d.arena.blocks.flatMap Block.items = (nodes.filter fun n => n.directive?.isNone).map .node := by
  have hbuild := Arena.build_eq (nearest_extends sources steps) chain origin
  refine ⟨hbuild, fun front back d s s' hrun => ?_, fun nodes s hnodes => ?_⟩
  · have harena : (Arena.build (nearest sources steps) chain origin front).run.run s = (.ok d.arena, s') := by
      rw [hbuild, run_bind_of_ok hrun]
      rfl
    have hsound := (Arena.sound_start chain origin none).foldlM harena
    refine ⟨?_, hsound, hsound.getLast?_filter⟩
    rw [Draft.build, List.foldlM_append]
    exact run_bind_of_ok hrun
  · obtain ⟨d, s', hrun, hitems⟩ := Draft.exists_run_foldlM hnodes (Draft.start chain origin none) s
    exact ⟨d, s', hrun, hitems⟩

/-- A block that is opened twice behind an `extends`, and the same nodes without it. -/
theorem blocks_hold_nodes_twice :
    let build := Draft.build (nearest (Sources.inMemory .firstPass [] : Sources Unit) 1) ["page"] "page"
    let nodes : List Node := [⟨.directive (.openBlock "x"), 1⟩, ⟨.text "a" false, 1⟩, ⟨.directive .closeBlock, 1⟩,
      ⟨.text "b" false, 1⟩, ⟨.directive (.openBlock "x"), 2⟩, ⟨.comment "c", 2⟩]
    let extended := ⟨.text "lost" false, 1⟩ :: ⟨.directive (.inherits "base"), 1⟩ :: nodes
    (∃ d s, (build extended).run.run ⟨(), []⟩ = (.ok d, s) ∧ d.arena.Sound ∧
        d.arena.order = [.anonymous 0, .named "x", .anonymous 2, .named "x"] ∧ d.arena.index (.named "x") = some 3) ∧
      ∃ d s, (build nodes).run.run ⟨(), []⟩ = (.ok d, s) ∧ d.arena.blocks.flatMap Block.items =
        [.node ⟨.text "a" false, 1⟩, .node ⟨.text "b" false, 1⟩, .node ⟨.comment "c", 2⟩] := by
  intro build nodes extended
  obtain ⟨-, hsound, hlocal⟩ := blocks_hold_nodes (Sources.inMemory .firstPass [] : Sources Unit) 1 ["page"] "page"
  refine ⟨⟨_, _, rfl, (hsound extended [] _ ⟨(), []⟩ _ rfl).2.1, by decide, by decide⟩, ?_⟩
  exact hlocal nodes ⟨(), []⟩ (by decide)

end Stencil
