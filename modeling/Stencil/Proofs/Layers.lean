import Stencil.Proofs.Flattening

/-!
# Pages as layers

Once all pages behind a page are known, the page comes to one layer, `Page.layer`: its parts are blocks, and a call of
the parent's block stands for the content that the pages behind give to the name. The layers of a whole climb are
`layers`. The nearest of them that settles a name has the content of that name (`content_eq`), and the last of them has
the order and the parts that the flattening goes by (`nearestLayer_eq_of_getLast?`, `flatten_eq`).
-/

namespace Stencil

/-! ## Parts as blocks -/

/-- The item that a node becomes; a call of the parent's block stands for the given instructions. -/
def Node.item (above : List Located) (n : Node) : Item :=
  if n.kind = .directive .superBlock then .super n.line above else .node n

namespace Part

/-- The name of the block that a part becomes in a place. -/
def blockName (place : Nat) (part : Part) : BlockName := part.name.elim (.anonymous place) .named

/-- What a call of the parent's block stands for inside a part. -/
def above (pages : List Page) (part : Part) : List Located := part.name.elim [] (content pages)

/-- The block that a part becomes in a place of a template with the given origin and ancestors. -/
def block (origin : String) (pages : List Page) (place : Nat) (part : Part) : Block :=
  ⟨part.blockName place, origin, part.nodes.map (Node.item (part.above pages))⟩

/-- The blocks that parts become, the first of them in the given place. -/
def blocks (origin : String) (pages : List Page) : Nat → List Part → List Block
  | _, [] => []
  | place, part :: parts => part.block origin pages place :: blocks origin pages (place + 1) parts

variable {origin : String} {pages : List Page} {place : Nat} {part : Part} {parts : List Part}

theorem instructions_block :
    (part.block origin pages place).instructions = fill origin (part.above pages) part.nodes := by
  simp only [Block.instructions, block, fill, List.flatMap_map]
  refine List.flatMap_congr fun n _ => ?_
  unfold Node.item
  split <;> rfl

theorem blocks_append (origin : String) (pages : List Page) (place : Nat) (as bs : List Part) :
    blocks origin pages place (as ++ bs) =
      blocks origin pages place as ++ blocks origin pages (place + as.length) bs := by
  induction as generalizing place with
  | nil => rfl
  | cons a as ih =>
    simp only [List.cons_append, blocks, ih, List.length_cons]
    rw [Nat.add_right_comm, Nat.add_assoc]

theorem mem_blocks {b : Block} (h : b ∈ blocks origin pages place parts) :
    ∃ (i : Nat) (part : Part), parts[i]? = some part ∧ b = part.block origin pages (place + i) := by
  induction parts generalizing place with
  | nil => cases h
  | cons part parts ih =>
    rcases List.mem_cons.mp h with rfl | h
    · exact ⟨0, part, rfl, rfl⟩
    · obtain ⟨i, part', hi, rfl⟩ := ih h
      exact ⟨i + 1, part', hi, by rw [Nat.add_right_comm, Nat.add_assoc]⟩

theorem block_mem_blocks (place : Nat) {i : Nat} (h : parts[i]? = some part) :
    part.block origin pages (place + i) ∈ blocks origin pages place parts := by
  induction parts generalizing place i with
  | nil => cases h
  | cons head parts ih =>
    cases i with
    | zero => cases h; exact List.mem_cons_self
    | succ i =>
      have := ih (place + 1) h
      rw [Nat.add_right_comm, Nat.add_assoc] at this
      exact List.mem_cons_of_mem _ this

theorem flatMap_blocks {α : Type} {f : Block → List α} {g : Part → List α}
    (h : ∀ (i : Nat) (part : Part), parts[i]? = some part → f (part.block origin pages (place + i)) = g part) :
    (blocks origin pages place parts).flatMap f = parts.flatMap g := by
  induction parts generalizing place with
  | nil => rfl
  | cons part parts ih =>
    have hfirst : f (part.block origin pages place) = g part := h 0 part rfl
    rw [blocks, List.flatMap_cons, List.flatMap_cons, hfirst, ih]
    intro i part' hi
    rw [Nat.add_right_comm, Nat.add_assoc]
    exact h (i + 1) part' hi

/-- The blocks of a name are those of the parts of that name. -/
theorem filter_blocks_named (name : String) :
    ((blocks origin pages place parts).filter fun b => b.name = .named name) =
      (parts.filter fun part => part.name = some name).map (block origin pages 0) := by
  induction parts generalizing place with
  | nil => rfl
  | cons part parts ih =>
    by_cases h : part.name = some name
    · have hb : part.block origin pages place = part.block origin pages 0 := by simp [block, blockName, h]
      have hn : (part.block origin pages 0).name = .named name := by simp [block, blockName, h]
      simp [blocks, hb, hn, h, ih]
    · have hn : (part.block origin pages place).name ≠ .named name := by
        simp only [block, blockName]
        cases hp : part.name <;> simp_all
      simp [blocks, hn, h, ih]

end Part

/-! ## The layer of a page -/

namespace Page

/-- The layer of a page, with the pages of its ancestors. -/
def layer (pages : List Page) (page : Page) : Layer :=
  ⟨page.origin, page.parent, Part.blocks page.origin pages 0 page.parts⟩

variable {pages : List Page} {page : Page}

theorem block?_named (pages : List Page) (page : Page) (name : String) :
    (page.layer pages).block? (.named name) = (page.part? name).map (Part.block page.origin pages 0) := by
  simp only [Layer.block?, layer, part?, Part.filter_blocks_named, List.getLast?_map]

/-- No two blocks without a name share their number. -/
theorem block?_anonymous {place : Nat} {part : Part} (h : page.parts[place]? = some part) (hn : part.name = none) :
    (page.layer pages).block? (.anonymous place) = some (part.block page.origin pages place) := by
  have hm : part.block page.origin pages place ∈
      (page.layer pages).blocks.filter fun b => b.name = .anonymous place := by
    refine List.mem_filter.mpr ⟨?_, by simp [Part.block, Part.blockName, hn]⟩
    simpa [layer] using Part.block_mem_blocks 0 h
  obtain ⟨b, hb⟩ := Option.isSome_iff_exists.mp (List.getLast?_isSome.mpr (List.ne_nil_of_mem hm))
  obtain ⟨hb', hname⟩ := List.mem_filter.mp (List.mem_of_getLast? hb)
  obtain ⟨i, part', hi, rfl⟩ := Part.mem_blocks hb'
  simp only [Part.block, Part.blockName, Nat.zero_add, decide_eq_true_eq] at hname
  cases hp : part'.name with
  | some name => simp [hp] at hname
  | none =>
    simp only [hp, Option.elim_none, BlockName.anonymous.injEq] at hname
    subst hname
    rw [h] at hi
    cases hi
    rw [Layer.block?, hb, Nat.zero_add]

theorem settles_named (pages : List Page) (page : Page) (name : String) :
    (page.layer pages).settles (.named name) = (page.parent.isNone || (page.part? name).isSome) := by
  have : (page.layer pages).order.contains (.named name) = ((page.layer pages).block? (.named name)).isSome := by
    rw [Bool.eq_iff_iff]
    simp [Layer.order, Layer.block?]
  rw [Layer.settles, this, block?_named]
  simp [layer, BlockName.isNamed]

/-- The content of a block, seen from a page that may have one of its name. -/
theorem content_cons (name : String) : content (page :: pages) name =
    ((page.layer pages).block? (.named name)).elim (content pages name) Block.instructions := by
  rw [content, block?_named]
  cases h : page.part? name with
  | none => rfl
  | some part =>
    have hn : part.name = some name := by simpa using (List.mem_filter.mp (List.mem_of_getLast? h)).2
    simp only [Option.map_some, Option.elim_some, Part.instructions_block, Part.above, hn]

end Page

/-! ## The layers of a climb -/

/-- The layers of pages, of which each one is the parent of the one before. -/
def layers : List Page → List Layer
  | [] => []
  | page :: pages => page.layer pages :: layers pages

/-- The nearest layer with a property, or else the first one that has no parent. -/
def nearestLayer (pages : List Page) (stops : Layer → Bool) : Option Layer :=
  (layers pages).find? fun layer => layer.parent.isNone || stops layer

/-- The block that stands in a place, seen from the first of the pages. -/
def blockAt (pages : List Page) (name : BlockName) : Option Block :=
  (nearestLayer pages fun layer => layer.settles name).bind fun layer => layer.block? name

theorem blockAt_cons (page : Page) (pages : List Page) (name : BlockName) : blockAt (page :: pages) name =
    if (page.layer pages).settles name then (page.layer pages).block? name else blockAt pages name := by
  have hs : ((page.layer pages).parent.isNone || (page.layer pages).settles name) =
      (page.layer pages).settles name := by
    simp only [Layer.settles, ← Bool.or_assoc, Bool.or_self]
  rw [blockAt, nearestLayer, layers, List.find?_cons, hs]
  cases (page.layer pages).settles name <;> rfl

/-- The block that a call of the parent's block stands for; the pages are those behind. -/
def superAt (pages : List Page) : BlockName → Option Block
  | .named name => blockAt pages (.named name)
  | .anonymous _ => none

section Climb

variable {m : Markup} {texts : Bindings String} {start next : Option String} {pages : List Page}

theorem Climb.eq_nil (h : Climb m texts none pages next) : pages = [] ∧ next = none := by
  cases h
  exact ⟨rfl, rfl⟩

theorem Climb.next_eq (h : Climb m texts start pages next) : next = pages.getLast?.elim start Page.parentName := by
  induction h with
  | here => rfl
  | @up _ page pages _ _ _ ih =>
    rw [ih]
    cases pages with
    | nil => rfl
    | cons above pages =>
      obtain ⟨last, hl⟩ := Option.isSome_iff_exists.mp (List.getLast?_isSome.mpr (List.cons_ne_nil above pages))
      rw [List.getLast?_cons_cons, hl]
      rfl

/-- A page without a parent is the last one. -/
theorem Climb.next_eq_none {page : Page} (h : Climb m texts start pages next) (hm : page ∈ pages)
    (hp : page.parent = none) : next = none := by
  induction h with
  | here => cases hm
  | up _ h ih =>
    rcases List.mem_cons.mp hm with rfl | hm
    · rw [Page.parentName, hp] at h
      exact h.eq_nil.2
    · exact ih hm

/-- The nearest layer that settles a name has its content. -/
theorem content_eq (h : Climb m texts start pages none) (name : String) :
    content pages name = (blockAt pages (.named name)).elim [] Block.instructions := by
  generalize hn : (none : Option String) = next at h
  induction h with
  | here => rfl
  | @up _ page pages _ _ hc ih =>
    have hs := Page.settles_named pages page name
    have hb := Page.block?_named pages page name
    rw [page.content_cons, blockAt, nearestLayer, layers, List.find?_cons]
    by_cases hl : (page.layer pages).settles (.named name) = true
    · simp only [hl, Bool.or_true, Option.bind_some]
      rcases hp : page.part? name with _ | part
      · -- the page has no such block, so it is the last one
        have hnone : page.parent = none := by simpa [hs, hp] using hl
        rw [Page.parentName, hnone] at hc
        obtain ⟨rfl, -⟩ := hc.eq_nil
        simp only [hb, hp, Option.map_none, Option.elim_none, content]
      · simp only [hb, hp, Option.map_some, Option.elim_some]
    · rw [Bool.not_eq_true] at hl
      obtain ⟨hparent, hp⟩ := Bool.or_eq_false_iff.mp (hs.symm.trans hl)
      have hparent : (page.layer pages).parent.isNone = false := hparent
      rw [Option.isSome_eq_false_iff, Option.isNone_iff_eq_none] at hp
      simp only [hparent, hl, Bool.or_self, hb, hp, Option.map_none, Option.elim_none]
      exact ih hn

/-- A call of the parent's block from inside a part gives what the parts above have. -/
theorem above_eq (h : Climb m texts start pages none) (place : Nat) (part : Part) :
    part.above pages = (superAt pages (part.blockName place)).elim [] Block.instructions := by
  rw [Part.above, Part.blockName]
  rcases part.name with _ | name
  · rfl
  · exact content_eq h name

/-- The last page gives the nearest layer with a property that only layers without a parent have. -/
theorem nearestLayer_eq_of_getLast? {root : Page} {stops : Layer → Bool} (h : Climb m texts start pages none)
    (hr : pages.getLast? = some root) (hs : ∀ layer : Layer, stops layer = true → layer.parent.isNone = true) :
    nearestLayer pages stops = some (root.layer []) := by
  generalize hn : (none : Option String) = next at h
  induction h with
  | here => cases hr
  | @up _ page pages _ _ hc ih =>
    have hstop : ((page.layer pages).parent.isNone || stops (page.layer pages)) = page.parent.isNone :=
      Bool.or_eq_left_iff_imp.mpr (hs (page.layer pages))
    rw [nearestLayer, layers, List.find?_cons, hstop]
    rcases hp : page.parent with _ | p
    · rw [Page.parentName, hp] at hc
      obtain ⟨rfl, -⟩ := hc.eq_nil
      cases hr
      rfl
    · cases pages with
      | nil =>
        have hnext := hc.next_eq
        rw [← hn, Page.parentName, hp] at hnext
        cases hnext
      | cons above pages =>
        rw [List.getLast?_cons_cons] at hr
        exact ih hr hn

/-- The instructions of a climb are those of its blocks, in the order of the last page. -/
theorem flatten_eq {root : Page} (h : Climb m texts start pages none) (hr : pages.getLast? = some root) :
    flatten pages = (root.layer []).order.flatMap fun name => (blockAt pages name).elim [] Block.instructions := by
  have hanonymous (place : Nat) : nearestLayer pages (fun layer => layer.settles (.anonymous place)) =
      some (root.layer []) :=
    nearestLayer_eq_of_getLast? h hr fun layer hs => by simpa [Layer.settles, BlockName.isNamed] using hs
  rw [Layer.order, List.flatMap_map, Page.layer, Part.flatMap_blocks, flatten, hr]
  intro place part hpart
  rw [Nat.zero_add]
  rcases hn : part.name with _ | name
  · have hname : (part.block root.origin [] place).name = .anonymous place := by
      simp only [Part.block, Part.blockName, hn, Option.elim_none]
    rw [hname, blockAt, hanonymous, Option.bind_some, Page.block?_anonymous hpart hn, Option.elim_some,
      Part.instructions_block, Part.above, hn, Option.elim_none]
  · have hname : (part.block root.origin [] place).name = .named name := by
      simp only [Part.block, Part.blockName, hn, Option.elim_some]
    rw [hname]
    exact (content_eq h name).symm

/-- The same, with the layers behind the first page searched for the one that gives the order. -/
theorem flatten_cons_eq {name : String} {page : Page} (hp : Page.find? m texts name = some page)
    (h : Climb m texts page.parentName pages none) : flatten (page :: pages) =
      ((nearestLayer pages fun _ => false).getD (page.layer pages)).order.flatMap fun name =>
        (blockAt (page :: pages) name).elim [] Block.instructions := by
  obtain ⟨root, hr⟩ := Option.isSome_iff_exists.mp (List.getLast?_isSome.mpr (List.cons_ne_nil page pages))
  rw [flatten_eq (.up hp h) hr]
  cases pages with
  | nil =>
    cases hr
    rfl
  | cons above pages =>
    rw [List.getLast?_cons_cons] at hr
    rw [nearestLayer_eq_of_getLast? h hr fun _ hs => absurd hs Bool.false_ne_true, Option.getD_some]

end Climb

end Stencil
