import Stencil.Proofs.Layers
import Stencil.Proofs.Outcome

/-!
# Compiling is flattening

Ancestors are read one by one and only when they are needed, and calls of the parent's block are settled while a
template is still walked over. A lineage `Reads` the pages of a climb if its ancestors are the layers of those pages,
whichever pages are to follow. Looking for an ancestor keeps this and stops only where the search is decided
(`Finds`, `nearest_finds`); walking over the nodes of a template makes up the blocks of its page (`Draft.Shows`,
`Draft.shows_add`, `Draft.shows_build`).

When a template is compiled, the climb reaches its end, so its instructions are the flattening of the pages
(`compile_eq_flatten`).
-/

namespace Stencil

/-! ## Lineages -/

section Lineage

variable {m : Markup} {texts : Bindings String} {l : Lineage} {pages chain : List Page} {next : Option String}

/-- The ancestors of the lineage are those that a climb from its parent goes through up to the given next one. -/
structure Lineage.Reads (m : Markup) (texts : Bindings String) (l : Lineage) (pages : List Page)
    (next : Option String) : Prop where
  climb : Climb m texts (l.parent.map Parent.name) pages next
  parents : (l.ancestors.map fun a => a.layer.parent) = pages.map Page.parent
  layers : ∀ above, Climb m texts next above none →
    layers (pages ++ above) = l.ancestors.map Ancestor.layer ++ layers above
  length_le : l.names.length ≤ maxExtends

/-- A lineage that has read no ancestors. -/
theorem Lineage.Reads.of_ancestors_eq_nil (h : l.ancestors = []) (hle : l.chain.length ≤ maxExtends) :
    l.Reads m texts [] (l.parent.map Parent.name) where
  climb := .here _
  parents := by rw [h]; rfl
  layers := by simp [h]
  length_le := by simpa [Lineage.names, h] using hle

/-- The next parent to be read is the one that the climb goes on with. -/
theorem Lineage.Reads.next?_eq (h : l.Reads m texts pages next) : l.next?.map (fun o => o.2.name) = next := by
  have hlast : l.ancestors.getLast?.map (fun a => a.layer.parent) = pages.getLast?.map Page.parent := by
    rw [← List.getLast?_map, h.parents, List.getLast?_map]
  rw [h.climb.next_eq, Lineage.next?]
  rcases ha : l.ancestors.getLast? with _ | a <;> rcases hp : pages.getLast? with _ | page <;> rw [ha, hp] at hlast
  · simp only [Option.map_map, Option.elim_none]
    rfl
  · cases hlast
  · cases hlast
  · simp only [Option.map_some, Option.some.injEq] at hlast
    simp only [hlast, Option.map_map, Option.elim_some, Page.parentName]
    rfl

/-- The lineage goes through all pages of a climb to the end that it has not stopped on. -/
theorem Lineage.Reads.find?_eq (h : l.Reads m texts pages next) (hc : Climb m texts (l.parent.map Parent.name) chain none)
    {stops : Layer → Bool} (hn : l.find? stops = none → l.next? = none) : l.find? stops = nearestLayer chain stops := by
  obtain ⟨above, rfl, ha⟩ := h.climb.exists_append hc
  rw [nearestLayer, h.layers above ha, List.find?_append, List.find?_map]
  rcases hf : l.find? stops with _ | layer
  · have hnext := h.next?_eq
    rw [hn hf] at hnext
    subst hnext
    obtain ⟨rfl, -⟩ := ha.eq_nil
    rw [Lineage.find?] at hf
    simp only [Function.comp_def, hf, Stencil.layers, List.find?_nil, Option.or_none]
  · rw [Lineage.find?] at hf
    simp only [Function.comp_def, hf, Option.some_or]

/-- A lineage that has found its last ancestor has read them all. -/
theorem Lineage.Reads.next_eq_none (h : l.Reads m texts pages next) {layer : Layer}
    (hf : l.find? (fun _ => false) = some layer) : next = none := by
  obtain ⟨a, ha, rfl⟩ := Option.map_eq_some_iff.mp hf
  have hnone : a.layer.parent = none := by simpa using List.find?_some ha
  have hm : a.layer.parent ∈ pages.map Page.parent := by
    rw [← h.parents]
    exact List.mem_map_of_mem (List.mem_of_find?_eq_some ha)
  obtain ⟨page, hm, hp⟩ := List.mem_map.mp hm
  exact h.climb.next_eq_none hm (hp.trans hnone)

theorem Lineage.length_lt_of_refusal?_eq_none {origin : String} {p : Parent} (h : l.refusal? origin p = none) :
    l.names.length < maxExtends := by
  unfold Lineage.refusal? at h
  split at h
  · cases h
  · split at h
    · cases h
    · next hlt => exact Nat.lt_of_not_le hlt

/-- The next page is read, and behind it those that its lineage has read. -/
theorem Lineage.Reads.extend {name : String} {page : Page} {behind : Lineage} {pages' : List Page}
    {next' : Option String} {a : Ancestor} (h : l.Reads m texts pages (some name))
    (hp : Page.find? m texts name = some page) (hb : behind.Reads m texts pages' next')
    (hparent : behind.parent = page.parent) (hchain : behind.chain = l.names ++ [a.dependency.name])
    (ha : a.layer.parent = page.parent)
    (hlayer : ∀ above, Climb m texts page.parentName above none → a.layer = page.layer above) :
    (l.extend (a :: behind.ancestors)).Reads m texts (pages ++ page :: pages') next' := by
  have hclimb : Climb m texts page.parentName pages' next' := by
    have := hb.climb
    rwa [hparent] at this
  refine ⟨h.climb.append (.up hp hclimb), ?_, fun above habove => ?_, ?_⟩
  · simp only [Lineage.extend, List.map_append, List.map_cons, h.parents, hb.parents, ha]
  · have hrest := hclimb.append habove
    rw [List.append_assoc, List.cons_append, h.layers _ (.up hp hrest), Stencil.layers, hb.layers above habove,
      ← hlayer _ hrest]
    simp only [Lineage.extend, List.map_append, List.map_cons, List.append_assoc, List.cons_append]
  · have hle := hb.length_le
    rw [Lineage.names, hchain] at hle
    simpa [Lineage.names, Lineage.extend, Nat.add_assoc, Nat.add_comm, Nat.add_left_comm] using hle

end Lineage

/-! ## Looking for an ancestor -/

section Finds

variable {σ : Type} {m : Markup} {texts : Bindings String}

/-- The lineage reads pages of some climb. -/
def Lineage.ReadsSome (m : Markup) (texts : Bindings String) (l : Lineage) : Prop :=
  ∃ pages next, l.Reads m texts pages next

/-- A lineage with more of its ancestors read. -/
structure Lineage.Deepens (m : Markup) (texts : Bindings String) (l l' : Lineage) : Prop where
  chain : l'.chain = l.chain
  origin : l'.origin = l.origin
  parent : l'.parent = l.parent
  reads : l'.ReadsSome m texts

/-- Finding an ancestor gives the one that the lineage stops on after it has been read as far as that takes. It is
asked for in lineages of so many names at least. -/
def Finds (m : Markup) (texts : Bindings String) (ancestor : Ancestry σ) (least : Nat) : Prop :=
  ∀ (l : Lineage) (s : Session σ) (stops : Layer → Bool) (r : Option Layer) (l' : Lineage) (s' : Session σ),
    l.ReadsSome m texts → least ≤ l.names.length → (ancestor stops).run.run (l, s) = (.ok r, l', s') →
      l.Deepens m texts l' ∧ r = l'.find? stops ∧ (r = none → l'.next? = none)

theorem Finds.mono {ancestor : Ancestry σ} {least least' : Nat} (h : Finds m texts ancestor least)
    (hle : least ≤ least') : Finds m texts ancestor least' :=
  fun l s stops r l' s' hl hl' => h l s stops r l' s' hl (hle.trans hl')

theorem Lineage.ReadsSome.deepens {l : Lineage} (h : l.ReadsSome m texts) : l.Deepens m texts l :=
  ⟨rfl, rfl, rfl, h⟩

theorem Lineage.Deepens.trans {l l' l'' : Lineage} (h : l.Deepens m texts l') (h' : l'.Deepens m texts l'') :
    l.Deepens m texts l'' :=
  ⟨h'.chain.trans h.chain, h'.origin.trans h.origin, h'.parent.trans h.parent, h'.reads⟩

/-- What is found is the nearest layer of a climb to the end. -/
theorem Finds.eq_nearestLayer {ancestor : Ancestry σ} {least : Nat} (h : Finds m texts ancestor least) {l l' : Lineage}
    {s s' : Session σ} {stops : Layer → Bool} {r : Option Layer} (hl : l.ReadsSome m texts)
    (hle : least ≤ l.names.length) (hr : (ancestor stops).run.run (l, s) = (.ok r, l', s')) {chain : List Page}
    (hc : Climb m texts (l.parent.map Parent.name) chain none) : r = nearestLayer chain stops := by
  obtain ⟨hd, rfl, hn⟩ := h l s stops r l' s' hl hle hr
  obtain ⟨pages, next, hreads⟩ := hd.reads
  exact hreads.find?_eq (hd.parent ▸ hc) hn

/-- A call of the parent's block gives the content that the pages behind give to the name. -/
theorem parentBlock_eq {ancestor : Ancestry σ} {least : Nat} (h : Finds m texts ancestor least) {l l' : Lineage}
    {s s' : Session σ} {name : BlockName} {line : Nat} {block : Option Block} (hl : l.ReadsSome m texts)
    (hle : least ≤ l.names.length) (hr : (parentBlock ancestor name line).run.run (l, s) = (.ok block, l', s')) :
    l.Deepens m texts l' ∧ ∀ chain, Climb m texts (l.parent.map Parent.name) chain none →
      block = superAt chain name := by
  unfold parentBlock at hr
  obtain ⟨_, _, hown, hr⟩ := of_run_bind_eq_ok hr
  cases hown
  by_cases hp : l.parent.isNone = true
  · simp only [hp, ↓reduceIte] at hr
    obtain ⟨_, _, hthrow, -⟩ := of_run_bind_eq_ok hr
    cases hthrow
  · simp only [hp, Bool.false_eq_true, ↓reduceIte] at hr
    cases name with
    | named name =>
      obtain ⟨r, _, hfind, hr⟩ := of_run_bind_eq_ok hr
      cases hr
      refine ⟨(h _ _ _ _ _ _ hl hle hfind).1, fun chain hc => ?_⟩
      rw [h.eq_nearestLayer hl hle hfind hc]
      rfl
    | anonymous place =>
      obtain ⟨r, _, hfind, hr⟩ := of_run_bind_eq_ok hr
      cases hr
      exact ⟨(h _ _ _ _ _ _ hl hle hfind).1, fun _ _ => rfl⟩

end Finds

/-! ## Walking over a template -/

section Draft

variable {σ : Type} {m : Markup} {texts : Bindings String} {d d' : Draft} {page : Page} {n : Node}
  {nodes : List Node} {origin : String}

/-- The draft holds the blocks of a page. -/
structure Draft.Shows (m : Markup) (texts : Bindings String) (d : Draft) (page : Page) : Prop where
  reads : d.lineage.ReadsSome m texts
  origin : d.lineage.origin = page.origin
  parent : d.lineage.parent = page.parent
  place : d.closed.length + 1 = page.parts.length
  blocks : ∀ chain, Climb m texts page.parentName chain none → d.blocks = Part.blocks page.origin chain 0 page.parts

/-- The layer of the draft is that of the page. -/
theorem Draft.Shows.layer_eq (h : d.Shows m texts page) {chain : List Page}
    (hc : Climb m texts page.parentName chain none) : d.layer = page.layer chain := by
  rw [Draft.layer, Page.layer, h.origin, h.parent, h.blocks chain hc]

/-- Nothing but an open anonymous block. -/
theorem Draft.shows_start {chain : List String} (hle : chain.length ≤ maxExtends) (origin : String)
    (parent : Option Parent) : (Draft.start chain origin parent).Shows m texts ⟨origin, parent, [⟨none, []⟩]⟩ :=
  ⟨⟨[], _, .of_ancestors_eq_nil rfl hle⟩, rfl, rfl, rfl, fun _ _ => rfl⟩

/-- A node that opens a block. -/
theorem Draft.Shows.openBlock (h : d.Shows m texts (Page.ofNodes origin nodes)) {name : BlockName}
    {next : Option String} (hn : n.parent? = none) (ho : n.opens? = some next)
    (hname : name = next.elim (.anonymous (d.closed.length + 1)) .named) :
    (d.openBlock name).Shows m texts (Page.ofNodes origin (nodes ++ [n])) := by
  have hparts := Page.parts_ofNodes_concat_of_opens origin nodes hn ho
  have hparent := Page.parent_ofNodes_concat origin nodes hn
  refine ⟨h.reads, h.origin, h.parent.trans hparent.symm, ?_, fun chain hc => ?_⟩
  · rw [hparts, List.length_append, ← h.place]
    rfl
  · have hb := h.blocks chain (by rwa [Page.parentName, ← hparent])
    have hplace := h.place
    rw [hparts, Part.blocks_append, Nat.zero_add, ← hplace]
    change _ = Part.blocks (Page.ofNodes origin nodes).origin chain 0 _ ++ _
    rw [← hb, hname]
    simp only [Draft.blocks, Draft.openBlock, Draft.current, List.reverse_cons, List.append_assoc]
    rw [h.origin]
    rfl

/-- A node that is an item of the open block. -/
theorem Draft.Shows.push (h : d.Shows m texts (Page.ofNodes origin nodes)) {l : Lineage} {item : Item}
    (hl : d.lineage.Deepens m texts l) (hn : n.parent? = none) (ho : n.opens? = none)
    (hitem : ∀ chain, Climb m texts (d.lineage.parent.map Parent.name) chain none →
      item = n.item ((superAt chain d.name).elim [] Block.instructions)) :
    ({ d with lineage := l }.push item).Shows m texts (Page.ofNodes origin (nodes ++ [n])) := by
  obtain ⟨front, last, hfront, hparts⟩ := Page.parts_ofNodes_concat_of_not_opens origin nodes hn ho
  have hparent := Page.parent_ofNodes_concat origin nodes hn
  refine ⟨hl.reads, hl.origin.trans h.origin, (hl.parent.trans h.parent).trans hparent.symm, ?_, fun chain hc => ?_⟩
  · have hplace := h.place
    rw [hfront, List.length_append] at hplace
    rw [hparts, List.length_append]
    exact hplace
  · rw [Page.parentName, hparent] at hc
    have hb := h.blocks chain hc
    rw [hfront, Part.blocks_append, Draft.blocks, List.reverse_cons] at hb
    -- the closed blocks are those of the parts in front, and the open one is that of the last part
    obtain ⟨hclosed, hcurrent⟩ := List.append_inj' hb rfl
    obtain ⟨hname, -, hitems⟩ := Block.mk.inj (List.head_eq_of_cons_eq hcurrent)
    have hitem := hitem chain (by rwa [h.parent])
    rw [hname, ← above_eq hc] at hitem
    rw [hparts, Part.blocks_append, Draft.blocks, List.reverse_cons]
    simp only [Draft.push, Draft.current, hclosed, hname, hitem, hl.origin, h.origin, List.reverse_cons, hitems]
    simp only [Part.blocks, Part.block, List.map_append, List.map_cons, List.map_nil]
    rfl

/-- Taking up a node leads from the page of some nodes to the page of one more. -/
theorem Draft.shows_add {ancestor : Ancestry σ} {least : Nat} (ha : Finds m texts ancestor least)
    (h : d.Shows m texts (Page.ofNodes origin nodes)) (hle : least ≤ d.lineage.chain.length)
    (hmax : d.lineage.chain.length ≤ maxExtends) {s s' : Session σ}
    (hr : (d.add ancestor n).run.run s = (.ok d', s')) :
    d'.Shows m texts (Page.ofNodes origin (nodes ++ [n])) ∧ d'.lineage.chain = d.lineage.chain := by
  obtain ⟨kind, line⟩ := n
  cases kind with
  | text | expression | escapedExpression | statement | comment =>
    cases hr
    exact ⟨h.push h.reads.deepens rfl rfl fun _ _ => rfl, rfl⟩
  | directive directive =>
    cases directive with
    | inherits name =>
      have hd : d' = Draft.start d.lineage.chain d.lineage.origin (some ⟨name, line⟩) := by
        unfold Draft.add at hr
        dsimp only at hr
        split at hr <;> cases hr <;> rfl
      rw [hd, Page.ofNodes_concat_of_parent origin nodes rfl, h.origin]
      exact ⟨Draft.shows_start hmax .., rfl⟩
    | openBlock name =>
      have hd : d' = d.openBlock (.named name) := by
        unfold Draft.add at hr
        dsimp only at hr
        split at hr <;> cases hr <;> rfl
      rw [hd]
      exact ⟨h.openBlock rfl rfl rfl, rfl⟩
    | closeBlock =>
      cases hr
      exact ⟨h.openBlock rfl rfl rfl, rfl⟩
    | superBlock =>
      obtain ⟨⟨block, l⟩, _, hsuper, hr⟩ := of_run_bind_eq_ok hr
      cases hr
      have hnames : least ≤ d.lineage.names.length := by
        rw [Lineage.names, List.length_append]
        exact Nat.le_add_right_of_le hle
      obtain ⟨hl, hblock⟩ := parentBlock_eq ha h.reads hnames (Work.of_run_runFrom hsuper)
      refine ⟨h.push hl rfl rfl fun chain hc => ?_, hl.chain⟩
      rw [hblock chain hc]
      rfl

/-- Walking over nodes makes up the blocks of their page. -/
theorem Draft.shows_build {ancestor : Ancestry σ} {chain : List String} (ha : Finds m texts ancestor chain.length)
    (hmax : chain.length ≤ maxExtends) {s s' : Session σ}
    (hr : (Draft.build ancestor chain origin nodes).run.run s = (.ok d, s')) :
    d.Shows m texts (Page.ofNodes origin nodes) ∧ d.lineage.chain = chain := by
  -- the nodes that are already behind are generalized
  suffices H : ∀ (rest seen : List Node) (d₀ : Draft) (s : Session σ), d₀.Shows m texts (Page.ofNodes origin seen) →
      d₀.lineage.chain = chain → (rest.foldlM (Draft.add ancestor) d₀).run.run s = (.ok d, s') →
      d.Shows m texts (Page.ofNodes origin (seen ++ rest)) ∧ d.lineage.chain = chain from
    H nodes [] _ s (Draft.shows_start hmax origin none) rfl hr
  intro rest
  induction rest with
  | nil =>
    intro seen d₀ s h hc hr
    cases hr
    rw [List.append_nil]
    exact ⟨h, hc⟩
  | cons n rest ih =>
    intro seen d₀ s h hc hr
    rw [List.foldlM_cons] at hr
    obtain ⟨d₁, s₁, hadd, hr⟩ := of_run_bind_eq_ok hr
    obtain ⟨h₁, hc₁⟩ := Draft.shows_add ha h (Nat.le_of_eq (by rw [hc])) (by rwa [hc]) hadd
    rw [List.append_cons]
    exact ih _ _ _ h₁ (hc₁.trans hc) hr

end Draft

/-! ## Templates in memory -/

section Memory

variable {σ : Type} {m : Markup} {texts : Bindings String} {s s' : Session σ}

theorem Sources.of_run_inMemory {name : String} {source : Source}
    (h : ((Sources.inMemory m texts).source name).run.run s = (.ok source, s')) :
    ∃ text, Bindings.get? texts name = some text ∧ source = Source.inMemory name text := by
  simp only [Sources.inMemory] at h
  split at h
  · next text ht =>
    cases h
    exact ⟨text, ht, rfl⟩
  · cases h

theorem Page.find?_eq_some {name text : String} {tokens : List Token} (ht : Bindings.get? texts name = some text)
    (h : (Source.inMemory name text).tokens m = .ok tokens) :
    Page.find? m texts name = some (Page.ofNodes name (Node.ofTokens tokens)) := by
  have hscan : Token.scan m text = .ok tokens := Source.tokens_eq_ok_iff.mp h
  simp only [Page.find?, ht, hscan, Except.toOption, Option.bind_eq_bind, Option.bind_some, pure]

/-- A lineage does not run out of steps, since it has so many names at most. -/
theorem nearest_finds (m : Markup) (texts : Bindings String) (steps : Nat) :
    Finds m texts (nearest (Sources.inMemory m texts : Sources σ) steps) (maxExtends + 1 - steps) := by
  induction steps with
  | zero =>
    intro l s stops r l' s' hl hle _
    obtain ⟨_, _, hreads⟩ := hl
    have := hreads.length_le
    omega
  | succ steps ih =>
    intro l s stops r l' s' hl hle hr
    unfold nearest at hr
    obtain ⟨_, _, hown, hr⟩ := of_run_bind_eq_ok hr
    cases hown
    split at hr
    · next layer hf =>
      cases hr
      exact ⟨hl.deepens, hf.symm, nofun⟩
    · next hf hn =>
      cases hr
      exact ⟨hl.deepens, hf.symm, fun _ => hn⟩
    · next o p hf hn =>
      split at hr
      · obtain ⟨_, _, hthrow, -⟩ := of_run_bind_eq_ok hr
        cases hthrow
      · next hrefusal =>
        obtain ⟨source, _, hsource, hr⟩ := Work.of_run_ofLoad_bind_eq_ok hr
        obtain ⟨tokens, _, htokens, hr⟩ := Work.of_run_ofLoad_bind_eq_ok hr
        obtain ⟨d, _, hbuild, hr⟩ := Work.of_run_ofLoad_bind_eq_ok hr
        obtain ⟨_, _, hupdate, hr⟩ := of_run_bind_eq_ok hr
        obtain ⟨text, htext, rfl⟩ := Sources.of_run_inMemory hsource
        have hpage := Page.find?_eq_some htext (congrArg Prod.fst htokens)
        have hlt := Lineage.length_lt_of_refusal?_eq_none (Option.eq_none_iff_forall_ne_some.mpr hrefusal)
        have hlength : (l.names ++ [p.name]).length = l.names.length + 1 := List.length_append
        -- the ancestor is built with one step less, and its chain has one name more
        obtain ⟨hd, hchain⟩ := Draft.shows_build (ih.mono (by omega)) (by omega) hbuild
        obtain ⟨pages, next, hreads⟩ := hl
        have hnext := hreads.next?_eq
        rw [hn] at hnext
        subst hnext
        obtain ⟨pages', next', hbehind⟩ := hd.reads
        have hextend := hreads.extend (a := ⟨(Source.inMemory p.name text).dependency, d.layer⟩) hpage hbehind
          hd.parent hchain hd.parent fun above hc => hd.layer_eq hc
        cases hupdate
        have hmore : l.names.length + 1 ≤ (l.extend (⟨(Source.inMemory p.name text).dependency, d.layer⟩ ::
            d.lineage.ancestors)).names.length := by
          simp only [Lineage.names, Lineage.extend, List.length_append, List.length_map, List.length_cons]
          omega
        obtain ⟨hdeepens, hfound⟩ := ih _ _ _ _ _ _ ⟨_, _, hextend⟩ (by omega) hr
        exact ⟨⟨hdeepens.chain, hdeepens.origin, hdeepens.parent, hdeepens.reads⟩, hfound⟩

/-- Finding an ancestor among the texts. -/
theorem ancestry_finds (m : Markup) (texts : Bindings String) (least : Nat) :
    Finds m texts (ancestry (Sources.inMemory m texts : Sources σ)) least :=
  (nearest_finds m texts (maxExtends + 1)).mono (by omega)

/-- The block set has the blocks of a page. -/
structure BlockSet.Shows (m : Markup) (texts : Bindings String) (set : BlockSet) (page : Page) : Prop where
  reads : set.lineage.ReadsSome m texts
  parent : set.lineage.parent = page.parent
  layer : ∀ chain, Climb m texts page.parentName chain none → set.layer = page.layer chain

/-- The instructions in the place of a block are those of the block that stands there. -/
theorem BlockSet.Shows.instructionsAt_eq {set : BlockSet} {page : Page} (h : set.Shows m texts page)
    {chain : List Page} (hc : Climb m texts page.parentName chain none) {l l' : Lineage} {name : BlockName}
    {instructions : List Located} (hl : set.lineage.Deepens m texts l)
    (hr : (set.instructionsAt (Sources.inMemory m texts) name).run.run (l, s) = (.ok instructions, l', s')) :
    set.lineage.Deepens m texts l' ∧ instructions = (blockAt (page :: chain) name).elim [] Block.instructions := by
  obtain ⟨block, ⟨l₁, s₁⟩, hblock, hr⟩ := of_run_bind_eq_ok hr
  cases hr
  rw [blockAt_cons, ← h.layer chain hc]
  unfold BlockSet.block at hblock
  by_cases hs : set.layer.settles name = true
  · rw [if_pos hs] at hblock ⊢
    cases hblock
    exact ⟨hl, rfl⟩
  · rw [if_neg hs] at hblock ⊢
    obtain ⟨r, _, hfind, hblock⟩ := of_run_bind_eq_ok hblock
    cases hblock
    have hfinds : Finds m texts (ancestry (Sources.inMemory m texts : Sources σ)) 0 := ancestry_finds m texts 0
    refine ⟨hl.trans (hfinds _ _ _ _ _ _ hl.reads (Nat.zero_le _) hfind).1, ?_⟩
    rw [hfinds.eq_nearestLayer hl.reads (Nat.zero_le _) hfind (by rwa [hl.parent, h.parent])]
    rfl

/-- The instructions of a block set are the flattening of a climb that starts with its page. -/
theorem BlockSet.Shows.instructions_eq {set : BlockSet} {page : Page} (h : set.Shows m texts page) {name : String}
    (hp : Page.find? m texts name = some page) {l' : Lineage} {instructions : List Located}
    (hr : (set.instructions (Sources.inMemory m texts)).run.run (set.lineage, s) = (.ok instructions, l', s')) :
    ∃ chain, Climb m texts page.parentName chain none ∧ instructions = flatten (page :: chain) := by
  obtain ⟨order, ⟨l₁, s₁⟩, horder, hr⟩ := of_run_bind_eq_ok hr
  obtain ⟨r, _, hfind, horder⟩ := of_run_bind_eq_ok horder
  cases horder
  have hfinds : Finds m texts (ancestry (Sources.inMemory m texts : Sources σ)) 0 := ancestry_finds m texts 0
  obtain ⟨hdeep, hfound, hlast⟩ := hfinds _ _ _ _ _ _ h.reads (Nat.zero_le _) hfind
  -- the search for the order goes on to the last ancestor, so the climb has come to its end
  obtain ⟨chain, next, hchain⟩ := hdeep.reads
  have hnext : next = none := by
    rcases r with _ | layer
    · have hnext := hchain.next?_eq
      rw [hlast rfl] at hnext
      exact hnext.symm
    · exact hchain.next_eq_none hfound.symm
  subst hnext
  have hclimb : Climb m texts page.parentName chain none := by
    have := hchain.climb
    rwa [hdeep.parent, h.parent] at this
  rw [hfinds.eq_nearestLayer h.reads (Nat.zero_le _) hfind (by rwa [h.parent]), h.layer chain hclimb] at hr
  refine ⟨chain, hclimb, ?_⟩
  have hrest : ∃ s₂ parts, (List.mapM (set.instructionsAt (Sources.inMemory m texts))
      ((nearestLayer chain fun _ => false).getD (page.layer chain)).order).run.run (l₁, s₂) = (.ok parts, l', s') ∧
        instructions = parts.flatten := by
    split at hr
    · obtain ⟨_, s₂, -, hr⟩ := Work.of_run_ofLoad_bind_eq_ok hr
      obtain ⟨parts, _, hparts, hr⟩ := of_run_bind_eq_ok hr
      cases hr
      exact ⟨s₂, parts, hparts, rfl⟩
    · obtain ⟨parts, _, hparts, hr⟩ := of_run_bind_eq_ok hr
      cases hr
      exact ⟨s₁, parts, hparts, rfl⟩
  obtain ⟨s₂, parts, hparts, rfl⟩ := hrest
  obtain ⟨-, rfl⟩ := of_run_mapM_eq_ok (I := fun k => set.lineage.Deepens m texts k.1)
    (fun _ _ _ _ hl hat => h.instructionsAt_eq hclimb hl hat) hdeep hparts
  rw [flatten_cons_eq hp hclimb, List.flatMap]

/-- **Compiling is flattening.** The instructions of a compiled template are the flattening of the pages from the
template up to the first one that has no parent. -/
theorem compile_eq_flatten {name : String} {t : Template} {session session' : Session σ}
    (h : ((Loader.direct (Sources.inMemory m texts)).template name).run.run session = (.ok t, session')) :
    ∃ pages, Climb m texts (some name) pages none ∧ t.program.instructions = flatten pages := by
  obtain ⟨source, s₁, hsource, h⟩ := of_run_bind_eq_ok h
  obtain ⟨text, htext, rfl⟩ := Sources.of_run_inMemory hsource
  obtain ⟨tokens, s₂, htokens, h⟩ := of_run_bind_eq_ok h
  obtain ⟨set, s₃, hset, h⟩ := of_run_bind_eq_ok h
  obtain ⟨⟨instructions, l⟩, s₄, hinstructions, h⟩ := of_run_bind_eq_ok h
  obtain ⟨program, s₅, hprogram, h⟩ := of_run_bind_eq_ok h
  cases h
  obtain ⟨d, _, hbuild, hset⟩ := of_run_bind_eq_ok hset
  cases hset
  have hpage := Page.find?_eq_some htext (congrArg Prod.fst htokens)
  have hone : [name].length ≤ maxExtends := Nat.le_of_ble_eq_true rfl
  obtain ⟨hd, -⟩ := Draft.shows_build (ancestry_finds m texts _) hone hbuild
  have hshows : BlockSet.Shows m texts ⟨d.lineage, d.blocks⟩ (Page.ofNodes name (Node.ofTokens tokens)) :=
    ⟨hd.reads, hd.parent, fun _ hc => hd.layer_eq hc⟩
  obtain ⟨chain, hc, hflat⟩ := hshows.instructions_eq hpage (Work.of_run_runFrom hinstructions)
  exact ⟨_ :: chain, .up hpage hc, (Program.of_link (congrArg Prod.fst hprogram)).2.trans hflat⟩

/-- A block that calls the one of its parent. -/
theorem compile_eq_flatten_super :
    let m := Markup.firstPass
    let texts := [("leaf", "%\x7bextends 'root'\x7d-%\x7bblock x\x7d<%\x7bblocksuper\x7d>%\x7bendblock\x7d"),
      ("root", "(%\x7bblock x\x7dy%\x7bendblock\x7d)")]
    ∃ t session', ((Loader.direct (Sources.inMemory m texts)).template "leaf").run.run ⟨(), []⟩ = (.ok t, session') ∧
      t.program.instructions.map Located.instruction =
        [.literal "(", .literal "<", .literal "y", .literal ">", .literal ")"] ∧
      ∃ pages, Climb m texts (some "leaf") pages none ∧ t.program.instructions = flatten pages := by
  intro m texts
  obtain ⟨t, session', hrun, hi⟩ := exists_run_eq_ok (s := ⟨(), []⟩)
    (x := (Loader.direct (Sources.inMemory m texts)).template "leaf")
    (g := fun t => t.program.instructions.map Located.instruction)
    (b := [.literal "(", .literal "<", .literal "y", .literal ">", .literal ")"]) (by decide +kernel)
  exact ⟨t, session', hrun, hi, compile_eq_flatten hrun⟩

end Memory

end Stencil
