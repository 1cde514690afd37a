import Stencil.Proofs.Guard
import Stencil.Proofs.Origins

/-!
# Going behind a load that succeeds

A load is followed by a second one that reads other sources. It `Retraces` the first one if it comes to a related
result wherever the first one succeeds. There are two ways out, and each is put down to what the first one gives: the
second load is `off` if nothing is known of it, and `stuck` if it fails.

For work on a lineage the reasons are ancestors that have been read, under names that are `lost` or `torn`
(`Ascent.Retraces`). They stay in the lineage while it grows. Only a further `extends` takes ancestors away: after it
the drafts are the same again but for their places (`Draft.Beside.add`), and a template that extends only once has no
further one (`Draft.Sole`). So a whole template is built in the same way (`Draft.build_retraces`).
-/

namespace Stencil

/-! ## One load behind another -/

namespace Load

variable {σ σ' α β α' β' : Type}

/-- Outcomes of two loads, the second one behind the first: where the first succeeds, so does the second, with a related
result. That it fails, or that nothing is known of it, is put down to what the first one gives. -/
inductive Retrace (lost torn : α → Prop) (R : α → α' → Prop) : Except Error α → Except Error α' → Prop
  | failed (e : Error) (y : Except Error α') : Retrace lost torn R (.error e) y
  | same {a : α} {b : α'} : R a b → Retrace lost torn R (.ok a) (.ok b)
  | off {a : α} (y : Except Error α') : lost a → Retrace lost torn R (.ok a) y
  | stuck {a : α} (e : Error) : torn a → Retrace lost torn R (.ok a) (.error e)

/-- The second load goes behind the first one, in whatever sessions they are run. -/
def Retraces (lost torn : α → Prop) (R : α → α' → Prop) (x : Load σ α) (y : Load σ' α') : Prop :=
  ∀ s t, Retrace lost torn R (x.run.run s).1 (y.run.run t).1

section Retraces

variable {lost torn : α → Prop} {R : α → α' → Prop} {lost' torn' : β → Prop} {S : β → β' → Prop}

theorem ofExcept_ok (a : α) : (ofExcept (.ok a) : Load σ α) = Pure.pure a := rfl

theorem Retraces.pure {a : α} {b : α'} (h : R a b) : Retraces lost torn R (pure a : Load σ α) (pure b : Load σ' α') :=
  fun _ _ => .same h

theorem Retraces.throw (e : Error) (y : Load σ' α') : Retraces lost torn R (throw e : Load σ α) y :=
  fun _ _ => .failed e _

theorem retraces_ofExcept (x : Except Error α) :
    Retraces lost torn Eq (ofExcept x : Load σ α) (ofExcept x : Load σ' α) := by
  intro s t
  rcases x with e | a
  · exact .failed e _
  · exact .same rfl

/-- Where all results are lost, nothing is said of the second load. -/
theorem Ensures.retraces {x : Load σ α} (h : Ensures lost x) (y : Load σ' α') : Retraces lost torn R x y := by
  intro s t
  have hlost := (h s).2
  rcases hx : (x.run.run s).1 with e | a
  · exact .failed e _
  · exact .off _ (hlost a hx)

theorem Retraces.bind {x : Load σ α} {y : Load σ' α'} {f : α → Load σ β} {g : α' → Load σ' β'}
    (h : Retraces lost torn R x y) (hlost : ∀ a, lost a → Ensures lost' (f a))
    (htorn : ∀ a, torn a → Ensures torn' (f a)) (hf : ∀ a b, R a b → Retraces lost' torn' S (f a) (g b)) :
    Retraces lost' torn' S (x >>= f) (y >>= g) := by
  intro s t
  have hout := h s t
  rcases hx : x.run.run s with ⟨r, s'⟩
  rcases hy : y.run.run t with ⟨r', t'⟩
  rw [hx, hy] at hout
  cases hout with
  | failed e =>
    rw [run_bind_of_error hx]
    exact .failed e _
  | same hab =>
    rw [run_bind_of_ok hx, run_bind_of_ok hy]
    exact hf _ _ hab s' t'
  | off _ ha =>
    rw [run_bind_of_ok hx]
    exact ((hlost _ ha).retraces (y >>= g)) s' t
  | @stuck a e ha =>
    rw [run_bind_of_ok hx, run_bind_of_error hy]
    have htorn := (htorn a ha s').2
    rcases hfa : ((f a).run.run s').1 with e' | c
    · exact .failed e' _
    · exact .stuck e (htorn c hfa)

/-- Where the first load begins with a failure, nothing has to be shown. -/
theorem retraces_of_error (e : Error) (f : α → Load σ β) (y : Load σ' β') :
    Retraces lost' torn' S (ofExcept (.error e) >>= f) y := fun _ _ => .failed e _

/-- Loads that give one and the same value go on from there. -/
theorem Retraces.bind_eq {x : Load σ α} {y : Load σ' α} {f : α → Load σ β} {g : α → Load σ' β'}
    (h : Retraces (fun _ => False) (fun _ => False) Eq x y) (hf : ∀ a, Retraces lost' torn' S (f a) (g a)) :
    Retraces lost' torn' S (x >>= f) (y >>= g) := by
  refine h.bind (fun _ => False.elim) (fun _ => False.elim) fun a b hab => ?_
  subst hab
  exact hf a

end Retraces

end Load

/-! ## Searching behind another search -/

/-- The name of an ancestor of the lineage has the property. -/
def Lineage.Has (P : String → Prop) (l : Lineage) : Prop := ∃ a ∈ l.ancestors, P a.dependency.name

/-- The second work goes behind the first one, from lineages on that are the same but for their places. What the first
one comes to can only be put down to an ancestor that has been read. -/
def Ascent.Retraces {σ σ' α α' : Type} (lost torn : String → Prop) (R : α → α' → Prop) (x : Ascent σ α)
    (y : Ascent σ' α') : Prop :=
  ∀ l l' : Lineage, l.bare = l'.bare → Load.Retraces (fun r => r.2.Has lost) (fun r => r.2.Has torn)
    (fun r r' => R r.1 r'.1 ∧ r.2.bare = r'.2.bare) (x.runFrom l) (y.runFrom l')

/-- The second search goes behind the first one, for any layer that can be told without its places. -/
structure Ancestry.Retraces {σ σ' : Type} (read read' : String → Except Error Source) (lost torn : String → Prop)
    (f : Ancestry σ) (g : Ancestry σ') : Prop where
  left : Ancestry.Grows read f
  right : Ancestry.Grows read' g
  retraces : ∀ stops, Unplaced stops →
    Ascent.Retraces lost torn (fun r r' => r.map Layer.bare = r'.map Layer.bare) (f stops) (g stops)

section Retraces

variable {σ σ' α α' β β' : Type} {read read' : String → Except Error Source} {lost torn P : String → Prop}
  {R : α → α' → Prop} {S : β → β' → Prop} {l l' : Lineage}

theorem Lineage.Has.mono {Q : String → Prop} (h : l.Has P) (hPQ : ∀ name, P name → Q name) : l.Has Q := by
  obtain ⟨a, ha, hP⟩ := h
  exact ⟨a, ha, hPQ _ hP⟩

theorem Lineage.Has.extend {behind : Lineage} {a : Ancestor} (h : behind.Has P) :
    (l.extend (a :: behind.ancestors)).Has P := by
  obtain ⟨b, hb, hP⟩ := h
  exact ⟨b, List.mem_append_right _ (List.mem_cons_of_mem _ hb), hP⟩

theorem Lineage.Grown.has (h : l.Grown read l') (hl : l.Has P) : l'.Has P := by
  obtain ⟨more, hmore, -⟩ := h.ancestors
  obtain ⟨a, ha, hP⟩ := hl
  refine ⟨a, ?_, hP⟩
  rw [hmore]
  exact List.mem_append_left more ha

theorem Ascent.Grows.has {x : Ascent σ α} (h : Ascent.Grows read x) (hl : l.Has P) :
    Load.Ensures (fun r => r.2.Has P) (x.runFrom l) := (h l).mono fun _ hr => hr.has hl

theorem Ascent.Retraces.pure {a : α} {b : α'} (h : R a b) :
    Ascent.Retraces lost torn R (pure a : Ascent σ α) (pure b : Ascent σ' α') := fun _ _ hl => .pure ⟨h, hl⟩

theorem Ascent.Retraces.bind {x : Ascent σ α} {y : Ascent σ' α'} {f : α → Ascent σ β} {g : α' → Ascent σ' β'}
    (h : Ascent.Retraces lost torn R x y) (hgrows : ∀ a, Ascent.Grows read (f a))
    (hf : ∀ a b, R a b → Ascent.Retraces lost torn S (f a) (g b)) :
    Ascent.Retraces lost torn S (x >>= f) (y >>= g) := by
  intro l l' hl
  rw [Work.runFrom_bind, Work.runFrom_bind]
  exact (h l l' hl).bind (fun r hr => (hgrows r.1).has hr) (fun r hr => (hgrows r.1).has hr) fun r r' hr =>
    hf r.1 r'.1 hr.1 r.2 r'.2 hr.2

theorem Ascent.Retraces.map {x : Ascent σ α} {y : Ascent σ' α'} {f : α → β} {g : α' → β'}
    (h : Ascent.Retraces lost torn R x y) (hfg : ∀ a b, R a b → S (f a) (g b)) :
    Ascent.Retraces lost torn S (do return f (← x)) (do return g (← y)) := by
  intro l l' hl
  rw [Work.runFrom_bind, Work.runFrom_bind]
  exact (h l l' hl).bind (fun _ hr => .pure hr) (fun _ hr => .pure hr) fun _ _ hr => .pure ⟨hfg _ _ hr.1, hr.2⟩

theorem Ascent.Retraces.ofLoad {x : Load σ α} {y : Load σ' α'}
    (h : Load.Retraces (fun _ => False) (fun _ => False) R x y) :
    Ascent.Retraces lost torn R (Work.ofLoad x : Ascent σ α) (Work.ofLoad y : Ascent σ' α') := by
  intro l l' hl
  rw [Work.runFrom_ofLoad, Work.runFrom_ofLoad]
  exact h.bind (fun _ => False.elim) (fun _ => False.elim) fun _ _ hab => .pure ⟨hab, hl⟩

theorem Ascent.Retraces.mapM {γ : Type} {f : γ → Ascent σ α} {g : γ → Ascent σ' α'}
    (hgrows : ∀ c, Ascent.Grows read (f c)) (hf : ∀ c, Ascent.Retraces lost torn R (f c) (g c)) (cs : List γ) :
    Ascent.Retraces lost torn (List.Forall₂ R) (cs.mapM f) (cs.mapM g) := by
  induction cs with
  | nil =>
    rw [List.mapM_nil, List.mapM_nil]
    exact .pure .nil
  | cons c cs ih =>
    have hrest := Ascent.Grows.mapM hgrows cs
    rw [List.mapM_cons, List.mapM_cons]
    exact (hf c).bind (fun a => hrest.bind fun as => .pure (a :: as)) fun a b hab =>
      ih.map fun as bs hs => .cons hab hs

end Retraces

/-! ## Building behind another building -/

/-- No more than one of the nodes names a parent. -/
def ExtendsOnce (nodes : List Node) : Prop := (nodes.filterMap Node.parent?).length ≤ 1

instance : DecidablePred ExtendsOnce := fun nodes =>
  inferInstanceAs (Decidable ((nodes.filterMap Node.parent?).length ≤ 1))

/-- The draft and the nodes that are left name no more than one parent, and without a parent the draft has no
ancestors. -/
structure Draft.Sole (nodes : List Node) (d : Draft) : Prop where
  single : (d.lineage.parent.toList ++ nodes.filterMap Node.parent?).length ≤ 1
  rooted : d.lineage.parent = none → d.lineage.ancestors = []

/-- The drafts are the same but for their places, or the first one is lost. -/
def Draft.Beside (lost : String → Prop) (d d' : Draft) : Prop := d.bare = d'.bare ∨ d.lineage.Has lost

section Draft

variable {σ σ' : Type} {read read' : String → Except Error Source} {lost torn P : String → Prop}
  {f : Ancestry σ} {g : Ancestry σ'} {d d' : Draft} {node : Node} {nodes : List Node}

theorem Node.parent?_eq_none_iff : node.parent? = none ↔ ∀ name, node.kind ≠ .directive (.inherits name) := by
  unfold parent?
  split
  · next name h => exact ⟨nofun, fun hkind => absurd h (hkind name)⟩
  · next h => exact ⟨fun _ => h, fun _ => rfl⟩

theorem unplaced_sought (name : BlockName) : Unplaced name.sought := by
  cases name with
  | named name => exact unplaced_settles _
  | anonymous => exact unplaced_const true

theorem BlockName.called_map_bare (name : BlockName) (found : Option Layer) :
    name.called (found.map Layer.bare) = (name.called found).map Block.bare := by
  cases name with
  | named name => exact Layer.map_bare_bind_block? found _
  | anonymous => rfl

/-- A node that calls no parent's block does the same in both. -/
theorem Draft.add_bare_eq (f : Ancestry σ) (g : Ancestry σ') (h : d.bare = d'.bare)
    (hkind : node.kind ≠ .directive .superBlock) (s : Session σ) (t : Session σ') :
    ∃ e e' s' t', (d.add f node).run.run s = (.ok e, s') ∧ (d'.add g node).run.run t = (.ok e', t') ∧
      e.bare = e'.bare := by
  have hnode : (d.push (.node node)).bare = (d'.push (.node node)).bare := by rw [bare_push, h, bare_push]
  obtain ⟨kind, line⟩ := node
  cases kind with
  | text | expression | escapedExpression | statement | comment => exact ⟨_, _, _, _, rfl, rfl, hnode⟩
  | directive directive =>
    cases directive with
    | inherits name =>
      have hstart : (start d.lineage.chain d.lineage.origin (some ⟨name, line⟩)).bare =
          (start d'.lineage.chain d'.lineage.origin (some ⟨name, line⟩)).bare := by
        rw [bare_start, bare_start, ← Lineage.chain_bare, bare_lineage_eq h, Lineage.chain_bare]
      unfold add
      dsimp only
      split <;> split <;> exact ⟨_, _, _, _, rfl, rfl, hstart⟩
    | openBlock name =>
      have hopen : (d.openBlock (.named name)).bare = (d'.openBlock (.named name)).bare := by
        rw [bare_openBlock, h, bare_openBlock]
      unfold add
      dsimp only
      split <;> split <;> exact ⟨_, _, _, _, rfl, rfl, hopen⟩
    | closeBlock => exact ⟨_, _, _, _, rfl, rfl, by rw [bare_openAnonymous, h, bare_openAnonymous]⟩
    | superBlock => exact absurd rfl hkind

/-- A call of the parent's block does the same in both. -/
theorem parentBlock_retraces (h : Ancestry.Retraces read read' lost torn f g) (name : BlockName) (line : Nat) :
    Ascent.Retraces lost torn (fun b b' => b.map Block.bare = b'.map Block.bare) (parentBlock f name line)
      (parentBlock g name line) := by
  intro l l' hl
  have hparent : l.parent = l'.parent := by rw [← Lineage.parent_bare, hl, Lineage.parent_bare]
  by_cases hp : l.parent.isSome
  · rw [runFrom_parentBlock_of_isSome f _ _ hp, runFrom_parentBlock_of_isSome g _ _ (hparent ▸ hp)]
    refine (h.retraces _ (unplaced_sought name) l l' hl).bind (fun _ hr => .pure hr) (fun _ hr => .pure hr) ?_
    rintro r r' ⟨hfound, hr⟩
    refine .pure ⟨?_, hr⟩
    change (name.called r.1).map Block.bare = (name.called r'.1).map Block.bare
    rw [← BlockName.called_map_bare, hfound, BlockName.called_map_bare]
  · rw [runFrom_parentBlock_of_isNone f _ _ (by simpa using hp)]
    exact .throw _ _

/-- A node does the same to drafts that are the same but for their places. -/
theorem Draft.add_retraces (h : Ancestry.Retraces read read' lost torn f g) (hd : d.bare = d'.bare) (node : Node) :
    Load.Retraces (fun e => e.lineage.Has lost) (fun e => e.lineage.Has torn) (fun e e' => e.bare = e'.bare)
      (d.add f node) (d'.add g node) := by
  by_cases hkind : node.kind = .directive .superBlock
  · have hname : d.name = d'.name := by
      change d.bare.name = d'.bare.name
      rw [hd]
    have hcall := parentBlock_retraces h d.name node.line _ _ (bare_lineage_eq hd)
    nth_rewrite 2 [hname] at hcall
    unfold add
    rw [hkind]
    refine hcall.bind (fun _ hr => .pure hr) (fun _ hr => .pure hr) ?_
    rintro r r' ⟨hblock, hr⟩
    have hinstructions := congrArg (·.elim [] Block.instructions) hblock
    simp only [Block.elim_map_bare] at hinstructions
    refine .pure ?_
    rw [bare_push, bare_push, bare_withLineage_eq hd hr, Item.bare, Item.bare, hinstructions]
  · intro s t
    obtain ⟨e, e', s', t', he, he', hbare⟩ := add_bare_eq f g hd hkind s t
    rw [he, he']
    exact .same hbare

/-- A node does the same to drafts that are beside one another. One that names a parent makes them the same again. -/
theorem Draft.Beside.add (h : Ancestry.Retraces read read' lost torn f g) (hd : d.Beside lost d')
    (hchain : d.lineage.chain = d'.lineage.chain) (node : Node) :
    Load.Retraces (fun e => e.lineage.Has lost) (fun e => e.lineage.Has torn) (fun e e' => e.bare = e'.bare)
      (d.add f node) (d'.add g node) := by
  rcases hd with hd | hd
  · exact add_retraces h hd node
  · by_cases hkind : ∃ name, node.kind = .directive (.inherits name)
    · obtain ⟨name, hkind⟩ := hkind
      have hsuper : node.kind ≠ .directive .superBlock := by rw [hkind]; nofun
      intro s t
      obtain ⟨e, s', he, -⟩ := add_of_not_super f d hsuper s
      obtain ⟨e', t', he', -⟩ := add_of_not_super g d' hsuper t
      have hstart := (ensures_add_inherits f d hkind s).2 e (congrArg Prod.fst he)
      have hstart' := (ensures_add_inherits g d' hkind t).2 e' (congrArg Prod.fst he')
      rw [he, he']
      refine .same ?_
      rw [hstart, hstart', bare_start, bare_start, hchain]
    · exact ((ensures_add h.left d (not_exists.mp hkind)).mono fun _ hgrown => hgrown.has hd).retraces _

/-- What a node makes of a draft that names no more than one parent. -/
theorem Draft.Sole.add (h : Ancestry.Grows read f) (hd : d.Sole (node :: nodes)) :
    Load.Ensures (Draft.Sole nodes) (d.add f node) := by
  have hsingle := hd.single
  by_cases hkind : ∃ name, node.kind = .directive (.inherits name)
  · obtain ⟨name, hkind⟩ := hkind
    have hparent : node.parent? = some ⟨name, node.line⟩ := by rw [Node.parent?, hkind]
    refine (ensures_add_inherits f d hkind).mono ?_
    rintro e rfl
    rw [List.filterMap_cons_some hparent, List.length_append, List.length_cons] at hsingle
    refine ⟨?_, nofun⟩
    simp only [start, Option.toList_some, List.singleton_append, List.length_cons]
    omega
  · have hkind := not_exists.mp hkind
    have hparent := Node.parent?_eq_none_iff.mpr hkind
    rw [List.filterMap_cons_none hparent] at hsingle
    by_cases hp : d.lineage.parent.isSome
    · refine (ensures_add h d hkind).mono fun e hgrown => ?_
      rw [← hgrown.parent] at hsingle hp
      refine ⟨hsingle, fun hnone => ?_⟩
      rw [hnone] at hp
      cases hp
    · -- without a parent nothing is searched for
      rw [add_eq_of_not_search f (fun _ => return none) fun hsearch => hp hsearch.2]
      have hgrows : Ancestry.Grows read (fun _ => return none : Ancestry σ) := fun _ => .pure none
      intro s
      refine ⟨(ensures_add hgrows d hkind s).1, fun e he => ?_⟩
      have hlineage := lineage_add_return (Prod.ext he rfl)
      rw [hparent, Option.elim_none] at hlineage
      exact ⟨hlineage ▸ hsingle, hlineage ▸ hd.rooted⟩

/-- A draft with ancestors has named its parent. -/
theorem Draft.Sole.parents_eq_nil (hd : d.Sole nodes) (hP : d.lineage.Has P) :
    nodes.filterMap Node.parent? = [] := by
  obtain ⟨a, ha, -⟩ := hP
  have hsingle := hd.single
  rcases hp : d.lineage.parent with _ | p
  · rw [hd.rooted hp] at ha
    cases ha
  · rw [hp, List.length_append, Option.toList_some, List.length_singleton] at hsingle
    exact List.eq_nil_of_length_eq_zero (by omega)

/-- Nodes that name no parent keep the ancestors. -/
theorem Draft.has_foldlM (h : Ancestry.Grows read f) (hnodes : nodes.filterMap Node.parent? = [])
    (hd : d.lineage.Has P) : Load.Ensures (fun e => e.lineage.Has P) (nodes.foldlM (Draft.add f) d) := by
  induction nodes generalizing d with
  | nil => exact .pure hd
  | cons node nodes ih =>
    rw [List.filterMap_eq_nil_iff] at hnodes
    obtain ⟨hnode, hnodes⟩ := List.forall_mem_cons.mp hnodes
    rw [List.foldlM_cons]
    exact (ensures_add h d (Node.parent?_eq_none_iff.mp hnode)).bind fun e hgrown =>
      ih (List.filterMap_eq_nil_iff.mpr hnodes) (hgrown.has hd)

/-- What is put down to an ancestor is put down to it in the end, unless more than one parent is named. -/
theorem Draft.ensures_foldlM (h : Ancestry.Grows read f) {chain : List String} {origin : String} {many : Prop}
    (hstands : d.Stands read chain origin) (hsole : many ∨ d.Sole nodes) (hd : d.lineage.Has P) :
    Load.Ensures (fun e => e.lineage.Has P ∨ many) (nodes.foldlM (Draft.add f) d) := by
  rcases hsole with hmany | hsole
  · exact (Load.Ensures.foldlM (fun _ node hd => stands_add h hd node) hstands).mono fun _ _ => .inr hmany
  · exact (has_foldlM h (hsole.parents_eq_nil hd) hd).mono fun _ => .inl

/-- Nodes do the same to drafts that are beside one another. -/
theorem Draft.Beside.foldlM (h : Ancestry.Retraces read read' lost torn f g) (htorn : ∀ name, lost name → torn name)
    {chain : List String} {origin origin' : String} {many : Prop} (hd : d.Beside lost d')
    (hleft : d.Stands read chain origin) (hright : d'.Stands read' chain origin') (hsole : many ∨ d.Sole nodes) :
    Load.Retraces (fun e => e.lineage.Has lost) (fun e => e.lineage.Has torn ∨ many) (fun e e' => e.bare = e'.bare)
      (nodes.foldlM (Draft.add f) d) (nodes.foldlM (Draft.add g) d') := by
  induction nodes generalizing d d' with
  | nil =>
    intro s t
    rcases hd with hd | hd
    · exact .same hd
    · exact .off _ hd
  | cons node nodes ih =>
    intro s t
    have hout := hd.add h (hleft.chain.trans hright.chain.symm) node s t
    have hleft := (stands_add h.left hleft node s).2
    have hright := (stands_add h.right hright node t).2
    have hsole {e : Draft} (he : ((d.add f node).run.run s).1 = .ok e) : many ∨ e.Sole nodes :=
      hsole.imp_right fun hsole => (hsole.add h.left s).2 e he
    rw [List.foldlM_cons, List.foldlM_cons]
    rcases hx : d.add f node |>.run.run s with ⟨e | e, s'⟩
    · rw [run_bind_of_error hx]
      exact .failed e _
    rw [hx] at hout hleft hsole
    rw [run_bind_of_ok hx]
    have hleft := hleft e rfl
    have hsole := hsole rfl
    rcases hy : d'.add g node |>.run.run t with ⟨e' | e', t'⟩
    · -- the second one is stuck, and the first one keeps the reason for it
      rw [run_bind_of_error hy]
      have hhas : e.lineage.Has torn := by
        rw [hy] at hout
        cases hout with
        | off _ hlost => exact hlost.mono htorn
        | stuck _ htorn => exact htorn
      have hkeeps := ensures_foldlM h.left hleft hsole hhas
      rcases hrest : ((nodes.foldlM (Draft.add f) e).run.run s').1 with e'' | c
      · exact .failed e'' _
      · exact .stuck e' ((hkeeps s').2 c hrest)
    · rw [run_bind_of_ok hy]
      rw [hy] at hout hright
      have hbeside : e.Beside lost e' := by
        cases hout with
        | same hbare => exact .inl hbare
        | off _ hlost => exact .inr hlost
      exact ih hbeside hleft (hright e' rfl) hsole s' t'

/-- Nodes are built up in the same way. -/
theorem Draft.build_retraces (h : Ancestry.Retraces read read' lost torn f g) (htorn : ∀ name, lost name → torn name)
    (chain : List String) (origin origin' : String) (nodes : List Node) :
    Load.Retraces (fun e => e.lineage.Has lost) (fun e => e.lineage.Has torn ∨ ¬ExtendsOnce nodes)
      (fun e e' => e.bare = e'.bare) (build f chain origin nodes) (build g chain origin' nodes) := by
  refine Beside.foldlM h htorn (.inl rfl) (stands_start ..) (stands_start ..) ?_
  by_cases hone : ExtendsOnce nodes
  · exact .inr ⟨hone, fun _ => rfl⟩
  · exact .inl hone

end Draft

end Stencil
