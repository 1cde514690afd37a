import Mathlib.Data.List.Dedup
import Stencil.Proofs.Assembly

/-!
# The guard of `extends`

Templates may extend one another in circles and to any depth. A parent is refused if its name is among those of the
lineage, or if there are as many of them as are allowed. Two things follow.

- Each step of the machine that compiles keeps the names of every template that is underway `Guarded`
  (`Assembly.Steps.stacked`), and so does every run (`Assembly.stacked_of_advance`).
- Where no template calls its parent's block, nothing is read before the order of the blocks is looked for
  (`Draft.build_of_not_super`). That search visits the pages of a climb one by one (`Lineage.Visits.nearest_cases`). It
  comes to the last of them, or to an `extends` that is `Refused`, and not to both (`Climb.not_refused`).

The main statement is `extends_guard_exact`.
-/

namespace Stencil

variable {σ : Type}

/-! ## Chains of templates in progress -/

/-- No name stands twice, and there are no more of them than are allowed. -/
structure Guarded (names : List String) : Prop where
  nodup : names.Nodup
  length_le : names.length ≤ maxExtends

section Lineage

variable {l behind : Lineage} {origin : String} {p : Parent}

/-- The names of a lineage that has read no ancestors. -/
theorem Lineage.names_start (chain : List String) (origin : String) (parent : Option Parent) :
    Lineage.names ⟨chain, origin, parent, []⟩ = chain := List.append_nil _

theorem Guarded.chain (h : Guarded l.names) : Guarded l.chain := by
  obtain ⟨hnodup, hle⟩ := h
  exact ⟨hnodup.of_append_left, le_trans l.length_chain_le hle⟩

/-- A parent that is not refused is not among the names. -/
theorem Lineage.not_mem_of_refusal?_eq_none (h : l.refusal? origin p = none) : p.name ∉ l.names := by
  intro hm
  rw [refusal?, if_pos (List.contains_iff_mem.mpr hm)] at h
  cases h

/-- A parent that is not refused can be put behind the names. -/
theorem Guarded.call (h : Guarded l.names) (hrefusal : l.refusal? origin p = none) : Guarded (l.names ++ [p.name]) := by
  have hlt := Lineage.length_lt_of_refusal?_eq_none hrefusal
  have hnot := Lineage.not_mem_of_refusal?_eq_none hrefusal
  refine ⟨List.nodup_append.mpr ⟨h.nodup, List.nodup_singleton _, ?_⟩, ?_⟩
  · intro a ha b hb hab
    rw [hab, List.mem_singleton.mp hb] at ha
    exact hnot ha
  · rw [List.length_append]
    exact hlt

/-- Names of a lineage that has an ancestor behind it which was built in a chain with these names. -/
theorem Lineage.names_extend {a : Ancestor} (h : behind.chain = l.names ++ [a.dependency.name]) :
    (l.extend (a :: behind.ancestors)).names = behind.names := by
  rw [names, names, h, names]
  simp only [extend, List.map_append, List.map_cons, List.append_assoc, List.singleton_append]

end Lineage

/-- Templates that are underway, innermost first: the names of each of them are guarded, and its chain is made up of the
names of the one that waits for it and its own name. The outermost one has the given name. -/
inductive Underway.Stacked (name : String) : List Underway → Prop
  | root {u : Underway} : Guarded u.job.lineage.names → u.job.lineage.chain = [name] → Stacked name [u]
  | on {u v : Underway} {below : List Underway} : Guarded u.job.lineage.names →
    u.job.lineage.chain = v.job.lineage.names ++ [u.dependency.name] → Stacked name (v :: below) →
      Stacked name (u :: v :: below)

namespace Underway

variable {name : String} {u : Underway} {below : List Underway}

theorem Stacked.guarded {us : List Underway} (h : Stacked name us) : ∀ u ∈ us, Guarded u.job.lineage.names := by
  induction h with
  | root hu => exact List.forall_mem_singleton.mpr hu
  | on hu _ _ ih => exact List.forall_mem_cons.mpr ⟨hu, ih⟩

/-- The innermost one goes on. -/
theorem Stacked.turn (h : Stacked name (u :: below)) {job : Job} (hg : Guarded job.lineage.names)
    (hc : job.lineage.chain = u.job.lineage.chain) : Stacked name ({ u with job } :: below) := by
  cases h with
  | root _ hchain => exact .root hg (hc.trans hchain)
  | on _ hchain hrest => exact .on hg (hc.trans hchain) hrest

end Underway

/-- A job that goes on keeps its chain, and its names stay guarded. -/
theorem Job.Proceeds.guarded {job job' : Job} (h : job.Proceeds job') (hg : Guarded job.lineage.names) :
    Guarded job'.lineage.names ∧ job'.lineage.chain = job.lineage.chain := by
  cases h with
  | @walk d d' node nodes hlineage =>
    simp only [Job.lineage] at hg ⊢
    rw [hlineage]
    rcases node.parent? with _ | p
    · exact ⟨hg, rfl⟩
    · refine ⟨?_, rfl⟩
      rw [Option.elim_some, Lineage.names_start]
      exact hg.chain
  | order => exact ⟨hg, rfl⟩
  | fill => exact ⟨hg, rfl⟩

/-- What the sources give under a name has that name. -/
def Sources.Named (sources : Sources σ) : Prop :=
  ∀ {name s source s'}, (sources.source name).run.run s = (.ok source, s') → source.name = name

theorem Sources.Reads.named {sources : Sources σ} {read : String → Except Error Source} (h : sources.Reads read) :
    sources.Named := by
  intro name s source s' hrun
  rw [h.source_eq] at hrun
  exact h.name_eq (congrArg Prod.fst hrun)

namespace Assembly

variable {sources : Sources σ} {c c' : Assembly σ}

/-- One step keeps the stack. -/
theorem Steps.stacked (hnamed : sources.Named) {name : String} (h : c.Steps sources c')
    (hc : Underway.Stacked name (c.active :: c.waiting)) : Underway.Stacked name (c'.active :: c'.waiting) := by
  cases h with
  | @leave d hjob =>
    have hg := hc.guarded c.active List.mem_cons_self
    rw [hjob] at hg
    unfold Assembly.leave
    split
    · exact hc.turn hg (by rw [hjob]; rfl)
    · next caller waiting hwaiting =>
      rw [hwaiting] at hc
      cases hc with
      | on _ hchain hrest =>
        rw [hjob] at hchain
        refine hrest.turn ?_ ?_ <;> rw [Job.lineage_withLineage]
        · rw [Lineage.names_extend hchain]
          exact hg
        · rfl
  | call hasks hrefusal hsource htokens =>
    have hg := (hc.guarded c.active List.mem_cons_self).call hrefusal
    refine .on ?_ ?_ hc
    · rw [← Lineage.names_start (c.active.job.lineage.names ++ [_])] at hg
      exact hg
    · rw [Source.dependency, hnamed hsource]
      rfl
  | proceed session hasks hproceeds =>
    have hg := hproceeds.guarded (hc.guarded c.active List.mem_cons_self)
    exact hc.turn hg.1 hg.2

/-- So does every run. -/
theorem stacked_of_advance (hnamed : sources.Named) {source : Source} {session : Session σ} {n : Nat}
    (h : (Stage.advance sources)^[n] (start sources source session) = .running c) :
    Underway.Stacked source.name (c.active :: c.waiting) := by
  refine Stage.invariant (I := fun c => Underway.Stacked source.name (c.active :: c.waiting))
    (fun c c' hc hsteps => hsteps.stacked hnamed hc) (fun c hstart => ?_) h
  unfold start at hstart
  split at hstart
  · cases hstart
  · cases hstart
    exact .root ⟨List.nodup_singleton _, Nat.le_of_ble_eq_true rfl⟩ rfl

end Assembly

/-! ## Climbs -/

section Climb

variable {m : Markup} {texts : Bindings String} {name : String} {page : Page} {start next : Option String}
  {pages above : List Page}

theorem Page.origin_of_find? (h : Page.find? m texts name = some page) : page.origin = name := by
  simp only [find?, Option.bind_eq_bind, Option.bind_eq_some_iff, pure, Option.some.injEq] at h
  obtain ⟨text, -, tokens, -, rfl⟩ := h
  rfl

theorem Climb.of_append (h : Climb m texts start (pages ++ above) next) :
    ∃ middle, Climb m texts start pages middle ∧ Climb m texts middle above next := by
  induction pages generalizing start with
  | nil => exact ⟨start, .here _, h⟩
  | cons page pages ih =>
    cases h with
    | up hp h =>
      obtain ⟨middle, hpages, habove⟩ := ih h
      exact ⟨middle, .up hp hpages, habove⟩

/-- There is one climb to the end. -/
theorem Climb.unique {pages' : List Page} (h : Climb m texts start pages none) (h' : Climb m texts start pages' none) :
    pages' = pages := by
  obtain ⟨above, rfl, habove⟩ := h.exists_append h'
  rw [habove.eq_nil.1, List.append_nil]

/-- A climb to the end comes to no template twice. -/
theorem Climb.nodup (h : Climb m texts start pages none) : (pages.map Page.origin).Nodup := by
  induction pages generalizing start with
  | nil => exact List.nodup_nil
  | cons page pages ih =>
    cases h with
    | @up name _ _ _ hp h =>
      rw [List.map_cons, List.nodup_cons]
      refine ⟨fun hm => ?_, ih h⟩
      -- a second climb from the same name would be a shorter one
      obtain ⟨page', hm', horigin⟩ := List.mem_map.mp hm
      obtain ⟨before, behind, rfl⟩ := List.append_of_mem hm'
      obtain ⟨middle, -, hbehind⟩ := h.of_append
      cases hbehind with
      | @up name' _ _ _ hp' hbehind =>
        have hname : name' = name := by
          rw [← Page.origin_of_find? hp', horigin, Page.origin_of_find? hp]
        subst hname
        have hlength := congrArg List.length (Climb.unique (.up hp h) (.up hp' hbehind))
        simp only [List.length_cons, List.length_append] at hlength
        omega

end Climb

/-! ## Orderly templates -/

/-- The nodes call no parent's block, and every parent that they name exists. -/
structure Orderly (texts : Bindings String) (nodes : List Node) : Prop where
  not_super : ∀ node ∈ nodes, node.kind ≠ .directive .superBlock
  exists_parent : ∀ p ∈ nodes.filterMap Node.parent?, (Bindings.get? texts p.name).isSome

/-- The text under a name scans, and its nodes are orderly. -/
def OrderlyAt (m : Markup) (texts : Bindings String) (name : String) : Prop :=
  ∀ text, Bindings.get? texts name = some text →
    ∃ tokens, Token.scan m text = .ok tokens ∧ Orderly texts (Node.ofTokens tokens)

section Draft

/-- A node that calls no parent's block is taken up, and only one that names a parent changes the lineage. -/
theorem Draft.add_of_not_super (ancestor : Ancestry σ) (d : Draft) {node : Node}
    (h : node.kind ≠ .directive .superBlock) (s : Session σ) :
    ∃ d' s', (d.add ancestor node).run.run s = (.ok d', s') ∧ d'.lineage =
      node.parent?.elim d.lineage fun p => ⟨d.lineage.chain, d.lineage.origin, some p, []⟩ := by
  obtain ⟨kind, line⟩ := node
  cases kind with
  | text | expression | escapedExpression | statement | comment => exact ⟨_, _, rfl, rfl⟩
  | directive directive =>
    cases directive with
    | inherits name =>
      unfold add
      dsimp only
      split <;> exact ⟨_, _, rfl, rfl⟩
    | openBlock name =>
      unfold add
      dsimp only
      split <;> exact ⟨_, _, rfl, rfl⟩
    | closeBlock => exact ⟨_, _, rfl, rfl⟩
    | superBlock => exact absurd rfl h

/-- Nodes that call no parent's block are walked over, and the last one that names a parent counts. -/
theorem Draft.build_of_not_super (ancestor : Ancestry σ) (chain : List String) (origin : String) {nodes : List Node}
    (h : ∀ node ∈ nodes, node.kind ≠ .directive .superBlock) (s : Session σ) :
    ∃ d s', (build ancestor chain origin nodes).run.run s = (.ok d, s') ∧
      d.lineage = ⟨chain, origin, (Page.ofNodes origin nodes).parent, []⟩ := by
  -- the parent that the nodes before have named is generalized
  suffices H : ∀ (d : Draft) (s : Session σ), d.lineage.ancestors = [] →
      ∃ d' s', (nodes.foldlM (add ancestor) d).run.run s = (.ok d', s') ∧ d'.lineage =
        ⟨d.lineage.chain, d.lineage.origin, (nodes.filterMap Node.parent?).getLast?.or d.lineage.parent, []⟩ by
    obtain ⟨d, s', hrun, hlineage⟩ := H (start chain origin none) s rfl
    exact ⟨d, s', hrun, by rw [hlineage]; simp [start, Page.ofNodes]⟩
  induction nodes with
  | nil =>
    intro d s hd
    refine ⟨d, s, rfl, ?_⟩
    rw [← hd]
    rfl
  | cons node nodes ih =>
    intro d s hd
    obtain ⟨hnode, hnodes⟩ := List.forall_mem_cons.mp h
    obtain ⟨d₁, s₁, hadd, hlineage⟩ := add_of_not_super ancestor d hnode s
    have hd₁ : d₁.lineage.ancestors = [] := by
      rw [hlineage]
      cases node.parent? <;> [exact hd; rfl]
    obtain ⟨d', s', hrun, hlineage'⟩ := ih hnodes d₁ s₁ hd₁
    rw [List.foldlM_cons, run_bind_of_ok hadd]
    refine ⟨d', s', hrun, ?_⟩
    rw [hlineage', hlineage]
    rcases hp : node.parent? with _ | p
    · rw [List.filterMap_cons_none hp]
      rfl
    · rw [List.filterMap_cons_some hp, List.getLast?_cons]
      rcases (nodes.filterMap Node.parent?).getLast? with _ | q <;> rfl

end Draft

/-! ## Following `extends` -/

/-- A climb comes to an `extends` that is refused: it names a template that has been visited, or it asks for one more
than is allowed. -/
inductive Refused (m : Markup) (texts : Bindings String) (name : String) : Error → Prop
  | cyclic {pages : List Page} {page : Page} {p : Parent} {visited : List String} :
    Climb m texts (some name) (pages ++ [page]) (some p.name) → page.parent = some p →
      visited = (pages ++ [page]).map Page.origin → visited.Nodup → visited.length ≤ maxExtends → p.name ∈ visited →
        Refused m texts name (.compilation ⟨page.origin, p.line⟩ (.cyclic visited p.name))
  | tooDeep {pages : List Page} {page : Page} {p : Parent} {visited : List String} :
    Climb m texts (some name) (pages ++ [page]) (some p.name) → page.parent = some p →
      visited = (pages ++ [page]).map Page.origin → visited.Nodup → visited.length = maxExtends → p.name ∉ visited →
        Refused m texts name (.compilation ⟨page.origin, p.line⟩ .tooDeep)

section Order

variable {m : Markup} {texts : Bindings String} {name : String} {pages : List Page} {page : Page} {l : Lineage}

/-- The names of the lineage are those of the templates that a climb has visited, and no ancestor is the last one. -/
structure Lineage.Visits (m : Markup) (texts : Bindings String) (name : String) (l : Lineage) (pages : List Page)
    (page : Page) : Prop where
  climb : Climb m texts (some name) (pages ++ [page]) page.parentName
  names : l.names = (pages ++ [page]).map Page.origin
  next : l.next? = page.parent.map fun p => (page.origin, p)
  find : page.parent.isSome → l.find? (fun _ => false) = none

theorem Lineage.visits_start (h : Page.find? m texts name = some page) :
    Lineage.Visits m texts name ⟨[name], name, page.parent, []⟩ [] page where
  climb := .up h (.here _)
  names := by rw [List.nil_append, List.map_singleton, Page.origin_of_find? h]; rfl
  next := by rw [Page.origin_of_find? h]; rfl
  find _ := rfl

/-- The parent has been visited as well. -/
theorem Lineage.Visits.extend {p : Parent} {page' : Page} {a : Ancestor} (h : l.Visits m texts name pages page)
    (hp : page.parent = some p) (hfind : Page.find? m texts p.name = some page') (hname : a.dependency.name = p.name)
    (horigin : a.layer.origin = p.name) (hparent : a.layer.parent = page'.parent) :
    (l.extend [a]).Visits m texts name (pages ++ [page]) page' := by
  have hpage' := Page.origin_of_find? hfind
  refine ⟨?_, ?_, ?_, fun hsome => ?_⟩
  · have hclimb := h.climb
    rw [Page.parentName, hp] at hclimb
    exact hclimb.append (.up hfind (.here _))
  · have hnames := h.names
    rw [Lineage.names] at hnames ⊢
    rw [Lineage.extend, List.map_append, ← List.append_assoc, hnames, List.map_singleton, hname, ← hpage']
    simp only [List.map_append, List.map_singleton]
  · rw [Lineage.next?, Lineage.extend, List.getLast?_append]
    simp only [List.getLast?_singleton, Option.some_or, hparent, horigin, hpage']
  · have hnone := h.find (by rw [hp]; rfl)
    simp only [Lineage.find?, Option.map_eq_none_iff, Lineage.extend, List.find?_append, Option.or_eq_none_iff]
      at hnone ⊢
    refine ⟨hnone, ?_⟩
    simp [hparent, Option.isSome_iff_ne_none.mp hsome]

/-- A parent that is named in an orderly template is orderly too. -/
theorem exists_parent_of_orderlyAt {p : Parent} (hm : ∀ name, OrderlyAt m texts name)
    (hpage : Page.find? m texts name = some page) (hp : page.parent = some p) :
    ∃ text tokens, Bindings.get? texts p.name = some text ∧ Token.scan m text = .ok tokens ∧
      Orderly texts (Node.ofTokens tokens) := by
  simp only [Page.find?, Option.bind_eq_bind, Option.bind_eq_some_iff, pure, Option.some.injEq] at hpage
  obtain ⟨text, htext, tokens, hscan, rfl⟩ := hpage
  obtain ⟨tokens', hscan', horderly⟩ := hm name text htext
  rw [hscan'] at hscan
  cases hscan
  obtain ⟨text', htext'⟩ := Option.isSome_iff_exists.mp (horderly.exists_parent p (List.mem_of_getLast? hp))
  obtain ⟨tokens'', hscan'', horderly'⟩ := hm p.name text' htext'
  exact ⟨text', tokens'', htext', hscan'', horderly'⟩

/-- A refusal comes from the guard. -/
theorem Lineage.Visits.refused {p : Parent} {e : Error} (h : l.Visits m texts name pages page)
    (hp : page.parent = some p) (hg : Guarded l.names) (hr : l.refusal? page.origin p = some e) :
    Refused m texts name e := by
  have hclimb := h.climb
  rw [Page.parentName, hp] at hclimb
  unfold refusal? at hr
  split at hr
  · next hm =>
    cases hr
    exact .cyclic hclimb hp h.names hg.nodup hg.length_le (List.contains_iff_mem.mp hm)
  · next hm =>
    split at hr
    · next hle =>
      cases hr
      exact .tooDeep hclimb hp h.names hg.nodup (le_antisymm hg.length_le hle) fun h => hm (List.contains_iff_mem.mpr h)
    · cases hr

/-- The next parent is read and has been visited then, and the search goes on behind it. -/
theorem Lineage.Visits.read (hm : ∀ name, OrderlyAt m texts name) {p : Parent}
    (h : l.Visits m texts name pages page) (hpage : Page.find? m texts page.origin = some page)
    (hp : page.parent = some p) (hg : Guarded l.names) (hr : l.refusal? page.origin p = none) (steps : Nat)
    (stops : Layer → Bool) (s : Session σ) :
    ∃ page' l' s', l'.Visits m texts name (pages ++ [page]) page' ∧ Page.find? m texts page'.origin = some page' ∧
      Guarded l'.names ∧ l'.names.length = l.names.length + 1 ∧
      ((readParent (Sources.inMemory m texts) steps stops l p).runFrom l).run.run s =
        ((nearest (Sources.inMemory m texts) steps stops).runFrom l').run.run s' := by
  obtain ⟨text, tokens, htext, hscan, horderly⟩ := exists_parent_of_orderlyAt hm hpage hp
  have htokens : (Source.inMemory p.name text).tokens m = .ok tokens := Source.tokens_eq_ok_iff.mpr hscan
  have hfind := Page.find?_eq_some htext htokens
  obtain ⟨d, s₁, hbuild, hlineage⟩ := Draft.build_of_not_super
    (nearest (Sources.inMemory m texts : Sources σ) steps) (l.names ++ [p.name]) p.name horderly.not_super s
  let a : Ancestor := ⟨(Source.inMemory p.name text).dependency, d.layer⟩
  have hextend : (l.extend [a]).Visits m texts name (pages ++ [page]) (Page.ofNodes p.name (Node.ofTokens tokens)) :=
    h.extend hp hfind rfl (congrArg Lineage.origin hlineage) (congrArg Lineage.parent hlineage)
  have hancestors : d.lineage.ancestors = [] := congrArg Lineage.ancestors hlineage
  have hnames : (l.extend [a]).names = l.names ++ [p.name] := by
    rw [Lineage.names, Lineage.extend, List.map_append, ← List.append_assoc]
    rfl
  have hsource : ((Sources.inMemory m texts).source p.name).run.run s = (.ok (Source.inMemory p.name text), s) := by
    rw [(Sources.reads_inMemory m texts).source_eq]
    exact Load.run_ofExcept s (Source.ofTexts_eq_ok_iff.mpr ⟨text, htext, rfl⟩)
  refine ⟨_, l.extend [a], s₁, hextend, hfind, ?_, ?_, ?_⟩
  · rw [hnames]
    exact hg.call hr
  · rw [hnames, List.length_append, List.length_singleton]
  · rw [runFrom_readParent, run_bind_of_ok hsource]
    refine (run_bind_of_ok (Load.run_ofExcept s htokens)).trans ((run_bind_of_ok hbuild).trans ?_)
    rw [hancestors]

/-- The search for the order of the blocks follows `extends` to the end, unless it is refused on the way. -/
theorem Lineage.Visits.nearest_cases (hm : ∀ name, OrderlyAt m texts name) {steps : Nat}
    (h : l.Visits m texts name pages page) (hpage : Page.find? m texts page.origin = some page) (hg : Guarded l.names)
    (hsteps : maxExtends < steps + l.names.length) (s : Session σ) :
    (∃ r s', ((nearest (Sources.inMemory m texts) steps fun _ => false).runFrom l).run.run s = (.ok r, s') ∧
      ∃ pages, Climb m texts (some name) pages none ∧ pages.length ≤ maxExtends) ∨
    ∃ e s', ((nearest (Sources.inMemory m texts) steps fun _ => false).runFrom l).run.run s = (.error e, s') ∧
      Refused m texts name e := by
  induction steps generalizing l pages page s with
  | zero =>
    have := hg.length_le
    omega
  | succ steps ih =>
    unfold nearest
    rw [Work.runFrom_bind, Work.runFrom_own, pure_bind]
    dsimp only
    rw [h.next]
    rcases hp : page.parent with _ | p
    · -- the last template
      have hclimb := h.climb
      rw [Page.parentName, hp] at hclimb
      have hlength := hg.length_le
      rw [h.names, List.length_map] at hlength
      rcases l.find? fun _ => false with _ | layer <;> exact .inl ⟨_, s, rfl, _, hclimb, hlength⟩
    · rw [h.find (by rw [hp]; rfl)]
      dsimp only [Option.map_some]
      rcases hr : l.refusal? page.origin p with _ | e
      · obtain ⟨page', l', s', hvisits, hpage', hg', hlength, hstep⟩ := h.read hm hpage hp hg hr steps (fun _ => false) s
        have hrest := ih hvisits hpage' hg' (by omega) s'
        rw [← hstep] at hrest
        exact hrest
      · exact .inr ⟨e, s, rfl, h.refused hp hg hr⟩

end Order

/-! ## The guard -/

section Guard

variable {m : Markup} {texts : Bindings String} {name : String}

/-- A climb to the end is not refused. -/
theorem Climb.not_refused {pages : List Page} {e : Error} (h : Climb m texts (some name) pages none)
    (hle : pages.length ≤ maxExtends) : ¬Refused m texts name e := by
  intro hrefused
  -- the climb goes on from the `extends` that is refused to the template that it names
  have hbeyond {visited : List Page} {p : Parent} (hclimb : Climb m texts (some name) visited (some p.name)) :
      p.name ∉ visited.map Page.origin ∧ visited.length < maxExtends := by
    obtain ⟨above, rfl, habove⟩ := hclimb.exists_append h
    have hnodup := h.nodup
    cases habove with
    | @up _ page behind _ hp hbehind =>
      rw [List.map_append, List.map_cons, Page.origin_of_find? hp] at hnodup
      rw [List.length_append, List.length_cons] at hle
      exact ⟨fun hm => (List.nodup_append.mp hnodup).2.2 _ hm _ List.mem_cons_self rfl, by omega⟩
  cases hrefused with
  | cyclic hclimb _ hvisited _ _ hm =>
    subst hvisited
    exact (hbeyond hclimb).1 hm
  | tooDeep hclimb _ hvisited _ hlength _ =>
    subst hvisited
    rw [List.length_map] at hlength
    exact absurd hlength (hbeyond hclimb).2.ne

/-- The block set of an orderly template is built, and then the order of its blocks is found, or it is refused. -/
theorem order_cases (hm : ∀ name, OrderlyAt m texts name) {text : String} (htext : Bindings.get? texts name = some text)
    (session : Session σ) : ∃ tokens set session', Token.scan m text = .ok tokens ∧
      (BlockSet.build (Sources.inMemory m texts) [name] name (Node.ofTokens tokens)).run.run session =
        (.ok set, session') ∧
      ((∃ r s, ((set.order (Sources.inMemory m texts)).runFrom set.lineage).run.run session' = (.ok r, s) ∧
        ∃ pages, Climb m texts (some name) pages none ∧ pages.length ≤ maxExtends) ∨
      ∃ e s, ((set.order (Sources.inMemory m texts)).runFrom set.lineage).run.run session' = (.error e, s) ∧
        Refused m texts name e) := by
  obtain ⟨tokens, hscan, horderly⟩ := hm name text htext
  have hpage := Page.find?_eq_some htext (Source.tokens_eq_ok_iff.mpr hscan)
  obtain ⟨d, session', hbuild, hlineage⟩ := Draft.build_of_not_super
    (ancestry (Sources.inMemory m texts : Sources σ)) [name] name horderly.not_super session
  refine ⟨tokens, ⟨d.lineage, d.blocks⟩, session', hscan, run_bind_of_ok hbuild, ?_⟩
  have hguarded : Guarded [name] := ⟨List.nodup_singleton _, Nat.le_of_ble_eq_true rfl⟩
  have hvisits := Lineage.visits_start hpage
  have hnames : d.lineage.names = [name] := by rw [hlineage, Lineage.names_start]
  rw [← hlineage] at hvisits
  have horder : (BlockSet.order (Sources.inMemory m texts : Sources σ) ⟨d.lineage, d.blocks⟩).runFrom d.lineage =
      (nearest (Sources.inMemory m texts) (maxExtends + 1) fun _ => false).runFrom d.lineage >>= fun r =>
        pure ((r.1.getD (BlockSet.layer ⟨d.lineage, d.blocks⟩)).order, r.2) := Work.runFrom_bind ..
  rw [horder]
  have hsteps : maxExtends < maxExtends + 1 + d.lineage.names.length := by omega
  rcases hvisits.nearest_cases hm hpage (hnames ▸ hguarded) hsteps session' with
    ⟨r, s, hr, hclimb⟩ | ⟨e, s, he, hrefused⟩
  · exact .inl ⟨_, s, run_bind_of_ok hr, hclimb⟩
  · exact .inr ⟨e, s, run_bind_of_error he, hrefused⟩

/-- **The guard of `extends` is exact.** The machine comes to what compiling comes to, however templates extend one
another, and on the way no lineage of a template that is underway names a template twice or more than 32 of them.

Where all texts scan, call no parent's block and name parents that exist, the order of the blocks of a template is found
if and only if `extends` leads from it to a template without one by way of no more than 32 templates. If not, the
failure stands where an `extends` names a template again, or asks for one more (`Refused`). -/
theorem extends_guard_exact (m : Markup) (texts : Bindings String) :
    (∀ (source : Source) (session : Session σ),
      (∃ n, (Stage.advance (Sources.inMemory m texts))^[n]
        (Assembly.start (Sources.inMemory m texts) source session) =
          .ended ((Template.compile (Sources.inMemory m texts) source).run.run session)) ∧
      ∀ n c, (Stage.advance (Sources.inMemory m texts))^[n]
        (Assembly.start (Sources.inMemory m texts) source session) = .running c →
          ∀ u ∈ c.active :: c.waiting, u.job.lineage.names.Nodup ∧ u.job.lineage.names.length ≤ 32) ∧
    ((∀ name, OrderlyAt m texts name) → ∀ name text, Bindings.get? texts name = some text →
      ∀ session : Session σ, ∃ tokens set session', Token.scan m text = .ok tokens ∧
        (BlockSet.build (Sources.inMemory m texts) [name] name (Node.ofTokens tokens)).run.run session =
          (.ok set, session') ∧
        ((∃ order s, ((set.order (Sources.inMemory m texts)).runFrom set.lineage).run.run session' = (.ok order, s)) ↔
          ∃ pages, Climb m texts (some name) pages none ∧ (pages.map Page.origin).dedup.length ≤ 32) ∧
        ∀ e s, ((set.order (Sources.inMemory m texts)).runFrom set.lineage).run.run session' = (.error e, s) →
          Refused m texts name e) := by
  refine ⟨fun source session => ⟨Assembly.start_comes _ source session, fun n c hn u hu => ?_⟩, ?_⟩
  · have hstacked := Assembly.stacked_of_advance (Sources.reads_inMemory m texts).named hn
    exact ⟨(hstacked.guarded u hu).nodup, (hstacked.guarded u hu).length_le⟩
  · intro hm name text htext session
    obtain ⟨tokens, set, session', hscan, hbuild, hcases⟩ := order_cases hm htext session
    refine ⟨tokens, set, session', hscan, hbuild, ?_⟩
    rcases hcases with ⟨r, s, hr, pages, hclimb, hle⟩ | ⟨e, s, he, hrefused⟩
    · rw [hr]
      refine ⟨⟨fun _ => ⟨pages, hclimb, ?_⟩, fun _ => ⟨r, s, rfl⟩⟩, fun e s' he => by cases he⟩
      rw [hclimb.nodup.dedup, List.length_map]
      exact hle
    · rw [he]
      refine ⟨⟨?_, ?_⟩, ?_⟩
      · rintro ⟨order, s', ho⟩
        cases ho
      · rintro ⟨pages, hclimb, hle⟩
        rw [hclimb.nodup.dedup, List.length_map] at hle
        exact absurd hrefused (hclimb.not_refused hle)
      · rintro e' s' he'
        cases he'
        exact hrefused

/-- A template that leads into a circle which it is not on itself. -/
theorem extends_guard_exact_circle :
    let m := Markup.firstPass
    let texts := [("leaf", "%\x7bextends 'left'\x7d"), ("left", "\n%\x7bextends 'right'\x7d"),
      ("right", "\n\n%\x7bextends 'left'\x7d")]
    (∀ name, OrderlyAt m texts name) ∧ ∃ tokens set session' e s,
      (BlockSet.build (Sources.inMemory m texts) ["leaf"] "leaf" (Node.ofTokens tokens)).run.run ⟨(), []⟩ =
        (.ok set, session') ∧
      ((set.order (Sources.inMemory m texts)).runFrom set.lineage).run.run session' = (.error e, s) ∧
      e.position? = some ⟨"right", 3⟩ ∧ Refused m texts "leaf" e := by
  intro m texts
  have horderly : ∀ name, OrderlyAt m texts name := by
    intro name text h
    simp only [texts, Bindings.get?] at h
    split at h
    · cases h
      exact ⟨[⟨.tag .statement, "extends 'left'", false, 1⟩], eq_ok_of_toOption (by decide +kernel),
        by decide +kernel, by decide +kernel⟩
    · split at h
      · cases h
        exact ⟨[⟨.text, "\n", false, 1⟩, ⟨.tag .statement, "extends 'right'", false, 2⟩],
          eq_ok_of_toOption (by decide +kernel), by decide +kernel, by decide +kernel⟩
      · split at h <;> cases h
        exact ⟨[⟨.text, "\n\n", false, 1⟩, ⟨.tag .statement, "extends 'left'", false, 3⟩],
          eq_ok_of_toOption (by decide +kernel), by decide +kernel, by decide +kernel⟩
  refine ⟨horderly, ?_⟩
  obtain ⟨tokens, set, session', hscan, hbuild, -, herror⟩ :=
    (extends_guard_exact m texts).2 horderly "leaf" _ rfl ⟨(), []⟩
  obtain ⟨e, s, hrun, hposition⟩ := exists_run_eq_error (s := (⟨(), []⟩ : Session Unit)) (x := do
      let tokens ← Load.ofExcept ((Source.inMemory "leaf" "%\x7bextends 'left'\x7d").tokens m)
      let set ← BlockSet.build (Sources.inMemory m texts) ["leaf"] "leaf" (Node.ofTokens tokens)
      (set.order (Sources.inMemory m texts)).runFrom set.lineage)
    (g := Error.position?) (b := some ⟨"right", 3⟩) (by decide +kernel)
  rw [run_bind_of_ok (Load.run_ofExcept _ (Source.tokens_eq_ok_iff.mpr hscan)), run_bind_of_ok hbuild] at hrun
  exact ⟨tokens, set, session', e, s, hbuild, hrun, hposition, herror e s hrun⟩

end Guard

end Stencil
