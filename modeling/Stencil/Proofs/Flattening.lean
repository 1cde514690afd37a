import Mathlib.Data.List.DropRight
import Stencil.Memory

/-!
# Flattening

What inheritance amounts to, said in one go and for whole chains of templates. A `Page` is a template as far as it
counts: the parent that its last `extends` names, and the nodes behind that, cut into named blocks and into what stands
between them. `Climb` follows the parents through texts that are held in memory.

`content` is what stands in the place of a named block, seen from the first of some pages: the last block of that name
on the nearest page that has one, with the content that the pages behind it give to the same name in place of every
`blocksuper`. `flatten` goes over the parts of the last page, puts the content of each named block into its place, and
keeps what stands between them.
-/

namespace Stencil

/-! ## Pages -/

/-- The parent that a node names. -/
def Node.parent? (n : Node) : Option Parent :=
  match n.kind with
  | .directive (.inherits name) => some ⟨name, n.line⟩
  | _ => none

/-- The name of the block that a node opens, if it opens one; a block that is closed is followed by one without a
name. -/
def Node.opens? (n : Node) : Option (Option String) :=
  match n.kind with
  | .directive (.openBlock name) => some (some name)
  | .directive .closeBlock => some none
  | _ => none

/-- A named block, or what stands between blocks. -/
structure Part where
  name : Option String
  nodes : List Node

/-- The parts that nodes are cut into; the first one has the given name. -/
def Part.cut (name : Option String) : List Node → List Part
  | [] => [⟨name, []⟩]
  | n :: rest =>
    match n.opens? with
    | some next => ⟨name, []⟩ :: cut next rest
    | none => (cut name rest).modifyHead fun part => { part with nodes := n :: part.nodes }

/-- A template as far as it counts. -/
structure Page where
  origin : String
  parent : Option Parent
  parts : List Part

namespace Page

/-- The page of nodes: only those behind the last `extends` count. -/
def ofNodes (origin : String) (nodes : List Node) : Page where
  origin
  parent := (nodes.filterMap Node.parent?).getLast?
  parts := Part.cut none (nodes.rtakeWhile fun n => n.parent?.isNone)

/-- The page of a text that is held in memory under a name. -/
def find? (m : Markup) (texts : Bindings String) (name : String) : Option Page := do
  let text ← Bindings.get? texts name
  let tokens ← (Token.scan m text).toOption
  return ofNodes name (Node.ofTokens tokens)

/-- The last block of a name. -/
def part? (page : Page) (name : String) : Option Part := (page.parts.filter fun part => part.name = some name).getLast?

/-- The name of the parent. -/
def parentName (page : Page) : Option String := page.parent.map Parent.name

end Page

/-- From the template of a name, if there is one, the parents lead through the pages to the name of the next one. -/
inductive Climb (m : Markup) (texts : Bindings String) : Option String → List Page → Option String → Prop
  | here (next : Option String) : Climb m texts next [] next
  | up {name : String} {page : Page} {pages : List Page} {next : Option String} :
    Page.find? m texts name = some page → Climb m texts page.parentName pages next →
      Climb m texts (some name) (page :: pages) next

/-! ## Content -/

/-- The instructions of nodes of a template, with the given ones in place of every call of the parent's block. -/
def fill (origin : String) (above : List Located) (nodes : List Node) : List Located :=
  nodes.flatMap fun n => if n.kind = .directive .superBlock then above else (n.instruction? origin).toList

/-- What stands in the place of a named block, seen from the first of the pages. -/
def content : List Page → String → List Located
  | [], _ => []
  | page :: above, name =>
    match page.part? name with
    | some part => fill page.origin (content above name) part.nodes
    | none => content above name

/-- The instructions of the first of the pages, of which each one is the parent of the one before. -/
def flatten (pages : List Page) : List Located :=
  match pages.getLast? with
  | none => []
  | some root => root.parts.flatMap fun part =>
    match part.name with
    | some name => content pages name
    | none => fill root.origin [] part.nodes

/-! ## Cutting from the end -/

theorem Part.cut_ne_nil (name : Option String) (nodes : List Node) : Part.cut name nodes ≠ [] := by
  induction nodes generalizing name with
  | nil => simp [cut]
  | cons n rest ih =>
    unfold cut
    split
    · simp
    · simp [ih]

/-- A node that opens a block adds a part. -/
theorem Part.cut_concat_of_opens {n : Node} {next : Option String} (h : n.opens? = some next) (name : Option String)
    (nodes : List Node) : Part.cut name (nodes ++ [n]) = Part.cut name nodes ++ [⟨next, []⟩] := by
  induction nodes generalizing name with
  | nil => simp [cut, h]
  | cons a rest ih =>
    simp only [List.cons_append, cut]
    split
    · rw [ih, List.cons_append]
    · rw [ih]
      obtain ⟨part, parts, hp⟩ := List.exists_cons_of_ne_nil (cut_ne_nil name rest)
      simp [hp]

/-- Any other node belongs to the last part. -/
theorem Part.cut_concat_of_not_opens {n : Node} (h : n.opens? = none) (name : Option String) (nodes : List Node) :
    ∃ front last, Part.cut name nodes = front ++ [last] ∧
      Part.cut name (nodes ++ [n]) = front ++ [{ last with nodes := last.nodes ++ [n] }] := by
  induction nodes generalizing name with
  | nil => exact ⟨[], ⟨name, []⟩, rfl, by simp [cut, h]⟩
  | cons a rest ih =>
    simp only [List.cons_append, cut]
    split
    · next next _ =>
      obtain ⟨front, last, he, he'⟩ := ih next
      exact ⟨⟨name, []⟩ :: front, last, by rw [he, List.cons_append], by rw [he', List.cons_append]⟩
    · obtain ⟨front, last, he, he'⟩ := ih name
      rw [he, he']
      cases front with
      | nil => exact ⟨[], _, rfl, rfl⟩
      | cons part front => exact ⟨_ :: front, last, rfl, rfl⟩

namespace Page

variable (origin : String) (nodes : List Node) {n : Node}

theorem ofNodes_concat_of_parent {p : Parent} (h : n.parent? = some p) :
    ofNodes origin (nodes ++ [n]) = ⟨origin, some p, [⟨none, []⟩]⟩ := by
  simp [ofNodes, h, List.filterMap_append, Part.cut]

theorem parent_ofNodes_concat (h : n.parent? = none) :
    (ofNodes origin (nodes ++ [n])).parent = (ofNodes origin nodes).parent := by
  simp [ofNodes, h, List.filterMap_append]

theorem parts_ofNodes_concat_of_opens {next : Option String} (h : n.parent? = none) (ho : n.opens? = some next) :
    (ofNodes origin (nodes ++ [n])).parts = (ofNodes origin nodes).parts ++ [⟨next, []⟩] := by
  simp only [ofNodes, List.rtakeWhile_concat, h, Option.isNone_none, ↓reduceIte]
  exact Part.cut_concat_of_opens ho ..

theorem parts_ofNodes_concat_of_not_opens (h : n.parent? = none) (ho : n.opens? = none) :
    ∃ front last, (ofNodes origin nodes).parts = front ++ [last] ∧
      (ofNodes origin (nodes ++ [n])).parts = front ++ [{ last with nodes := last.nodes ++ [n] }] := by
  simp only [ofNodes, List.rtakeWhile_concat, h, Option.isNone_none, ↓reduceIte]
  exact Part.cut_concat_of_not_opens ho ..

end Page

/-! ## Climbing -/

section Climb

variable {m : Markup} {texts : Bindings String} {start next : Option String} {pages : List Page}

/-- Where the parents lead to is settled: a climb to the end goes through the pages of any other climb. -/
theorem Climb.exists_append {chain : List Page} (h : Climb m texts start pages next)
    (hc : Climb m texts start chain none) : ∃ above, chain = pages ++ above ∧ Climb m texts next above none := by
  induction h generalizing chain with
  | here next => exact ⟨chain, rfl, hc⟩
  | up hp _ ih =>
    cases hc with
    | up hp' hc =>
      rw [hp] at hp'
      cases hp'
      obtain ⟨above, rfl, ha⟩ := ih hc
      exact ⟨above, rfl, ha⟩

theorem Climb.append {above : List Page} {last : Option String} (h : Climb m texts start pages next)
    (ha : Climb m texts next above last) : Climb m texts start (pages ++ above) last := by
  induction h with
  | here => exact ha
  | up hp _ ih => exact .up hp (ih ha)

end Climb

end Stencil
