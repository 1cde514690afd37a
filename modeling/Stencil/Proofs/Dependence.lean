import Stencil.Proofs.Reading

/-!
# What a template depends on

One source is compiled twice, in sessions of any kind and with two ways of reading. It comes to the same template,
unless a parent that the first one records is read in two ways (`Template.compile_coupled`). So compiling depends on no
session (`Template.compile_outcome_eq`), and a template whose parents are read as before is as before
(`Template.eq_of_parents_read`).

Side by side, two loads are `Coupled` if they come to related results or to the same failure; where they read different
things, one of them may fail alone. On a lineage, the results are the same until an ancestor is read in two ways. From
there on the first lineage `Strays`, and nothing more is said of the second one. That ancestor stays in the first
lineage, or all ancestors are dropped at a node that names a parent, and then the drafts are the same again
(`Draft.Near.add`).
-/

namespace Stencil

/-! ## Two loads side by side -/

namespace Load

variable {σ σ' α β α' β' : Type} {P : α → Prop}

/-- Outcomes of two loads: related results, or the same failure. Where the loads read different things, one of them may
fail alone. -/
inductive Match (differ : Prop) (R : α → α' → Prop) : Except Error α → Except Error α' → Prop
  | ok {a : α} {b : α'} : R a b → Match differ R (.ok a) (.ok b)
  | error (e : Error) : Match differ R (.error e) (.error e)
  | left (e : Error) (y : Except Error α') : differ → Match differ R (.error e) y
  | right (x : Except Error α) (e : Error) : differ → Match differ R x (.error e)

/-- The loads come to outcomes that match, in whatever sessions they are run. -/
def Coupled (differ : Prop) (R : α → α' → Prop) (x : Load σ α) (y : Load σ' α') : Prop :=
  ∀ s t, Match differ R (x.run.run s).1 (y.run.run t).1

section Coupled

variable {differ : Prop} {R : α → α' → Prop} {S : β → β' → Prop}

theorem Coupled.pure {a : α} {b : α'} (h : R a b) : Coupled differ R (pure a : Load σ α) (pure b : Load σ' α') :=
  fun _ _ => .ok h

theorem Coupled.throw (e : Error) : Coupled differ R (throw e : Load σ α) (throw e : Load σ' α') := fun _ _ => .error e

theorem Coupled.bind {x : Load σ α} {y : Load σ' α'} {f : α → Load σ β} {g : α' → Load σ' β'} (h : Coupled differ R x y)
    (hf : ∀ a b, R a b → Coupled differ S (f a) (g b)) : Coupled differ S (x >>= f) (y >>= g) := by
  intro s t
  have hmatch := h s t
  rcases hx : x.run.run s with ⟨r, s'⟩
  rcases hy : y.run.run t with ⟨r', t'⟩
  rw [hx, hy] at hmatch
  cases hmatch with
  | ok hab =>
    rw [run_bind_of_ok hx, run_bind_of_ok hy]
    exact hf _ _ hab s' t'
  | error e =>
    rw [run_bind_of_error hx, run_bind_of_error hy]
    exact .error e
  | left e _ hd =>
    rw [run_bind_of_error hx]
    exact .left e _ hd
  | right _ e hd =>
    rw [run_bind_of_error hy]
    exact .right _ e hd

theorem Coupled.forM {γ : Type} {f : γ → Load σ Unit} {g : γ → Load σ' Unit} (h : ∀ c, Coupled differ Eq (f c) (g c))
    (cs : List γ) : Coupled differ Eq (cs.forM f) (cs.forM g) := by
  induction cs with
  | nil => exact .pure rfl
  | cons c cs ih => exact (h c).bind fun _ _ _ => ih

theorem coupled_ofExcept (x : Except Error α) :
    Coupled differ Eq (ofExcept x : Load σ α) (ofExcept x : Load σ' α) := by
  intro s t
  rcases x with e | a
  · exact .error e
  · exact .ok rfl

theorem coupled_warn (w : Warning) : Coupled differ Eq (warn w : Load σ Unit) (warn w : Load σ' Unit) :=
  fun _ _ => .ok rfl

theorem Coupled.and_ensures {P' : α' → Prop} {x : Load σ α} {y : Load σ' α'} (h : Coupled differ R x y)
    (hx : Ensures P x) (hy : Ensures P' y) : Coupled differ (fun a b => R a b ∧ P a ∧ P' b) x y := by
  intro s t
  have hmatch := h s t
  have hleft := (hx s).2
  have hright := (hy t).2
  generalize (x.run.run s).1 = r, (y.run.run t).1 = r' at hmatch hleft hright ⊢
  cases hmatch with
  | ok hab => exact .ok ⟨hab, hleft _ rfl, hright _ rfl⟩
  | error e => exact .error e
  | left e _ hd => exact .left e _ hd
  | right _ e hd => exact .right _ e hd

/-- Where the loads read different things, it is enough that their results are related. -/
theorem Coupled.of_differ {P' : α' → Prop} {x : Load σ α} {y : Load σ' α'} (hd : differ) (hx : Ensures P x)
    (hy : ∀ t b, (y.run.run t).1 = .ok b → P' b) (hR : ∀ a b, P a → P' b → R a b) : Coupled differ R x y := by
  intro s t
  have hleft := (hx s).2
  have hright := hy t
  generalize (x.run.run s).1 = r, (y.run.run t).1 = r' at hleft hright ⊢
  rcases r with e | a
  · exact .left e r' hd
  · rcases r' with e | b
    · exact .right _ e hd
    · exact .ok (hR a b (hleft a rfl) (hright b rfl))

end Coupled

end Load

/-! ## Two ways of reading -/

/-- An ancestor of the lineage is read in two ways. -/
def Lineage.Strays (read read' : String → Except Error Source) (l : Lineage) : Prop :=
  ∃ a ∈ l.ancestors, read a.dependency.name ≠ read' a.dependency.name

/-- From one lineage on, the works come to the same, unless an ancestor has been read that is read in two ways. -/
def Ascent.Coupled {σ σ' α : Type} (read read' : String → Except Error Source) (x : Ascent σ α) (y : Ascent σ' α) :
    Prop :=
  ∀ l, Load.Coupled (read ≠ read') (fun r r' => r = r' ∨ r.2.Strays read read') (x.runFrom l) (y.runFrom l)

section Coupled

variable {σ σ' α β : Type} {read read' : String → Except Error Source} {l l' : Lineage}

theorem Lineage.Strays.ne (h : l.Strays read read') : read ≠ read' := by
  rintro rfl
  obtain ⟨a, -, ha⟩ := h
  exact ha rfl

theorem Lineage.Grown.strays (h : l.Grown read l') (hl : l.Strays read read') : l'.Strays read read' := by
  obtain ⟨more, hmore, -⟩ := h.ancestors
  obtain ⟨a, ha, hne⟩ := hl
  refine ⟨a, ?_, hne⟩
  rw [hmore]
  exact List.mem_append_left more ha

/-- From a lineage on that strays, work that grows comes to one that strays. -/
theorem Ascent.Grows.coupled_of_strays {x : Ascent σ α} {y : Load σ' (α × Lineage)} (h : Ascent.Grows read x)
    (hl : l.Strays read read') :
    Load.Coupled (read ≠ read') (fun r r' => r = r' ∨ r.2.Strays read read') (x.runFrom l) y :=
  .of_differ hl.ne (h l) (fun _ _ _ => trivial) fun _ _ hr _ => .inr (hr.strays hl)

theorem Ascent.Coupled.pure (a : α) : Ascent.Coupled read read' (pure a : Ascent σ α) (pure a : Ascent σ' α) :=
  fun _ => .pure (.inl rfl)

theorem Ascent.Coupled.throw (e : Error) : Ascent.Coupled read read' (throw e : Ascent σ α) (throw e : Ascent σ' α) :=
  fun _ => .throw e

/-- What follows goes on from the same lineage. -/
theorem Ascent.Coupled.own_bind {f : Lineage → Ascent σ β} {g : Lineage → Ascent σ' β}
    (h : ∀ l, Ascent.Coupled read read' (f l) (g l)) :
    Ascent.Coupled read read' (Work.own >>= f) (Work.own >>= g) := by
  intro l
  rw [Work.runFrom_bind, Work.runFrom_bind]
  exact h l l

theorem Ascent.Coupled.ofLoad {x : Load σ α} {y : Load σ' α} (h : Load.Coupled (read ≠ read') Eq x y) :
    Ascent.Coupled read read' (Work.ofLoad x : Ascent σ α) (Work.ofLoad y : Ascent σ' α) := by
  intro l
  rw [Work.runFrom_ofLoad, Work.runFrom_ofLoad]
  refine h.bind fun a b hab => ?_
  subst hab
  exact .pure (.inl rfl)

theorem Ascent.Coupled.bind {x : Ascent σ α} {y : Ascent σ' α} {f : α → Ascent σ β} {g : α → Ascent σ' β}
    (h : Ascent.Coupled read read' x y) (hgrows : ∀ a, Ascent.Grows read (f a))
    (hf : ∀ a, Ascent.Coupled read read' (f a) (g a)) : Ascent.Coupled read read' (x >>= f) (y >>= g) := by
  intro l
  rw [Work.runFrom_bind, Work.runFrom_bind]
  refine (h l).bind fun r r' hr => ?_
  rcases hr with rfl | hr
  · exact hf r.1 r.2
  · exact (hgrows r.1).coupled_of_strays hr

theorem Ascent.Coupled.mapM {γ : Type} {f : γ → Ascent σ α} {g : γ → Ascent σ' α}
    (hgrows : ∀ c, Ascent.Grows read (f c)) (hf : ∀ c, Ascent.Coupled read read' (f c) (g c)) (cs : List γ) :
    Ascent.Coupled read read' (cs.mapM f) (cs.mapM g) := by
  induction cs with
  | nil =>
    rw [List.mapM_nil, List.mapM_nil]
    exact .pure []
  | cons c cs ih =>
    have hrest := Ascent.Grows.mapM hgrows cs
    rw [List.mapM_cons, List.mapM_cons]
    exact (hf c).bind (fun a => hrest.bind fun as => .pure (a :: as)) fun a =>
      ih.bind (fun as => .pure (a :: as)) fun as => .pure (a :: as)

/-- Ancestors are found in two ways that only differ in what is read. -/
structure Ancestry.Coupled (read read' : String → Except Error Source) (f : Ancestry σ) (g : Ancestry σ') : Prop where
  left : Ancestry.Grows read f
  right : Ancestry.Grows read' g
  coupled : ∀ stops, Ascent.Coupled read read' (f stops) (g stops)

variable {f : Ancestry σ} {g : Ancestry σ'}

theorem parentBlock_coupled (h : Ancestry.Coupled read read' f g) (name : BlockName) (line : Nat) :
    Ascent.Coupled read read' (parentBlock f name line) (parentBlock g name line) := by
  unfold parentBlock
  refine .own_bind fun l => ?_
  cases name with
  | named name =>
    have hrest := (h.coupled fun layer => layer.settles (.named name)).bind
      (fun r => .pure (r.bind fun layer => layer.block? (.named name))) fun r => .pure _
    dsimp only
    split
    · exact .throw _
    · exact hrest
  | anonymous place =>
    have hrest := (h.coupled fun _ => true).bind (fun _ => .pure (none : Option Block)) fun _ => .pure _
    dsimp only
    split
    · exact .throw _
    · exact hrest

/-- The drafts are the same, unless an ancestor has been read that is read in two ways. -/
def Draft.Near (read read' : String → Except Error Source) (d d' : Draft) : Prop :=
  d = d' ∨ d.lineage.Strays read read'

/-- The same draft goes on in the same way. -/
theorem Draft.add_coupled (h : Ancestry.Coupled read read' f g) (d : Draft) (node : Node) :
    Load.Coupled (read ≠ read') (Draft.Near read read') (add f d node) (add g d node) := by
  have hsame (d : Draft) : Load.Coupled (read ≠ read') (Draft.Near read read') (pure d : Load σ Draft)
      (pure d : Load σ' Draft) := .pure (.inl rfl)
  unfold add
  split
  · split
    · exact (Load.coupled_warn _).bind fun _ _ _ => hsame _
    · exact hsame _
  · split
    · exact (Load.coupled_warn _).bind fun _ _ _ => hsame _
    · exact hsame _
  · exact hsame _
  · refine (parentBlock_coupled h _ _ _).bind fun r r' hr => .pure ?_
    rcases hr with rfl | hr
    · exact .inl rfl
    · exact .inr hr
  · exact hsame _

/-- Drafts that are near stay so: a node that names a parent makes them equal again. -/
theorem Draft.Near.add (h : Ancestry.Coupled read read' f g) {d d' : Draft} (hd : d.Near read read' d')
    (hchain : d.lineage.chain = d'.lineage.chain) (horigin : d.lineage.origin = d'.lineage.origin) (node : Node) :
    Load.Coupled (read ≠ read') (Draft.Near read read') (d.add f node) (d'.add g node) := by
  rcases hd with rfl | hd
  · exact add_coupled h d node
  · by_cases hkind : ∃ name, node.kind = .directive (.inherits name)
    · obtain ⟨name, hkind⟩ := hkind
      refine .of_differ hd.ne (ensures_add_inherits f d hkind) (fun t => (ensures_add_inherits g d' hkind t).2) ?_
      rintro _ _ rfl rfl
      rw [hchain, horigin]
      exact .inl rfl
    · refine .of_differ hd.ne (ensures_add h.left d (not_exists.mp hkind)) (fun _ _ _ => trivial) ?_
      exact fun _ _ hgrown _ => .inr (hgrown.strays hd)

theorem Draft.build_coupled (h : Ancestry.Coupled read read' f g) (chain : List String) (origin : String)
    (nodes : List Node) :
    Load.Coupled (read ≠ read') (Draft.Near read read') (build f chain origin nodes) (build g chain origin nodes) := by
  have hrun {d d' : Draft} (hd : d.Near read read' d') (hleft : d.Stands read chain origin)
      (hright : d'.Stands read' chain origin) : Load.Coupled (read ≠ read') (Draft.Near read read')
        (nodes.foldlM (Draft.add f) d) (nodes.foldlM (Draft.add g) d') := by
    induction nodes generalizing d d' with
    | nil => exact .pure hd
    | cons node nodes ih =>
      have hadd := hd.add h (hleft.chain.trans hright.chain.symm) (hleft.origin.trans hright.origin.symm) node
      rw [List.foldlM_cons, List.foldlM_cons]
      refine (hadd.and_ensures (stands_add h.left hleft node) (stands_add h.right hright node)).bind ?_
      rintro e e' ⟨he, hleft', hright'⟩
      exact ih he hleft' hright'
  exact hrun (.inl rfl) (stands_start ..) (stands_start ..)

section Sources

variable {A : Sources σ} {B : Sources σ'}

/-- Sources in the same markup that are read in two ways. -/
structure Sources.Coupled (read read' : String → Except Error Source) (A : Sources σ) (B : Sources σ') : Prop where
  left : A.Reads read
  right : B.Reads read'
  markup : A.markup = B.markup

theorem readParent_coupled (h : Sources.Coupled read read' A B) {steps : Nat}
    (ih : Ancestry.Coupled read read' (nearest A steps) (nearest B steps)) (stops : Layer → Bool) (l : Lineage)
    (p : Parent) : Ascent.Coupled read read' (readParent A steps stops l p) (readParent B steps stops l p) := by
  intro l₀
  by_cases hread : read p.name = read' p.name
  · -- the same source is read, so that the lineages part only if the draft of the parent strays
    simp only [readParent, Work.runFrom_bind, Work.runFrom_ofLoad, Work.runFrom_update, bind_assoc, pure_bind,
      h.left.source_eq, h.right.source_eq, hread, h.markup]
    refine (Load.coupled_ofExcept _).bind fun source _ hsource => ?_
    subst hsource
    refine (Load.coupled_ofExcept _).bind fun tokens _ htokens => ?_
    subst htokens
    refine (Draft.build_coupled ih _ _ _).bind fun d d' hd => ?_
    rcases hd with rfl | hd
    · exact ih.coupled stops _
    · refine (ih.left stops).coupled_of_strays ?_
      obtain ⟨a, ha, hne⟩ := hd
      exact ⟨a, List.mem_append_right _ (List.mem_cons_of_mem _ ha), hne⟩
  · -- the parent itself is now among the ancestors, whatever the second work does
    refine .of_differ (fun heq => hread (congrFun heq _)) (readParent_ensures h.left ih.left stops l p l₀)
      (fun _ _ _ => trivial) ?_
    rintro r r' ⟨-, source, layer, more, hsource, hancestors⟩ -
    refine .inr ⟨⟨source.dependency, layer⟩, ?_, ?_⟩
    · rw [hancestors]
      exact List.mem_append_right _ List.mem_cons_self
    · rw [Source.dependency, h.left.name_eq hsource]
      exact hread

theorem nearest_coupled (h : Sources.Coupled read read' A B) (steps : Nat) :
    Ancestry.Coupled read read' (nearest A steps) (nearest B steps) := by
  refine ⟨nearest_grows h.left steps, nearest_grows h.right steps, ?_⟩
  induction steps with
  | zero => exact fun _ => .pure none
  | succ steps ih =>
    intro stops
    unfold nearest
    refine .own_bind fun l => ?_
    have hsteps : Ancestry.Coupled read read' (nearest A steps) (nearest B steps) :=
      ⟨nearest_grows h.left steps, nearest_grows h.right steps, ih⟩
    have hread (p : Parent) := readParent_coupled h hsteps stops l p
    split
    · exact .pure _
    · exact .pure _
    · split
      · exact .throw _
      · exact hread _

theorem ancestry_coupled (h : Sources.Coupled read read' A B) :
    Ancestry.Coupled read read' (ancestry A) (ancestry B) := nearest_coupled h _

theorem BlockSet.instructionsAt_coupled (h : Sources.Coupled read read' A B) (set : BlockSet) (name : BlockName) :
    Ascent.Coupled read read' (set.instructionsAt A name) (set.instructionsAt B name) := by
  have hblock : Ascent.Coupled read read' (set.block A name) (set.block B name) := by
    unfold BlockSet.block
    split
    · exact .pure _
    · exact ((ancestry_coupled h).coupled _).bind (fun _ => .pure _) fun _ => .pure _
  exact hblock.bind (fun _ => .pure _) fun _ => .pure _

theorem BlockSet.warnOrphans_coupled (set : BlockSet) (order : List BlockName) :
    Load.Coupled (read ≠ read') Eq (set.warnOrphans order : Load σ Unit) (set.warnOrphans order : Load σ' Unit) := by
  refine Load.Coupled.forM (fun b => ?_) _
  split
  · exact .pure rfl
  · exact Load.coupled_warn _

theorem BlockSet.gather_coupled (h : Sources.Coupled read read' A B) (set : BlockSet) (order : List BlockName) :
    Ascent.Coupled read read' (set.gather A order) (set.gather B order) := by
  have hgrows : Ascent.Grows read (do return (← order.mapM (set.instructionsAt A)).flatten) :=
    (Ascent.Grows.mapM (BlockSet.instructionsAt_grows h.left set) order).bind fun _ => .pure _
  have hparts : Ascent.Coupled read read' (do return (← order.mapM (set.instructionsAt A)).flatten)
      (do return (← order.mapM (set.instructionsAt B)).flatten) :=
    (Ascent.Coupled.mapM (BlockSet.instructionsAt_grows h.left set) (BlockSet.instructionsAt_coupled h set) order).bind
      (fun _ => .pure _) fun _ => .pure _
  unfold BlockSet.gather
  split
  · exact (Ascent.Coupled.ofLoad (BlockSet.warnOrphans_coupled set order)).bind (fun _ => hgrows) fun _ => hparts
  · exact hparts

theorem BlockSet.instructions_coupled (h : Sources.Coupled read read' A B) (set : BlockSet) :
    Ascent.Coupled read read' (set.instructions A) (set.instructions B) := by
  have horder : Ascent.Coupled read read' (set.order A) (set.order B) :=
    (ancestry_coupled h).coupled _ |>.bind (fun _ => .pure _) fun _ => .pure _
  exact horder.bind (set.gather_grows h.left) (set.gather_coupled h)

/-- **Compiling depends on nothing but what is recorded.** Where a source is compiled in two ways that differ in what is
read, it comes to the same template, unless one of the parents that are recorded is read in two ways. -/
theorem Template.compile_coupled (h : Sources.Coupled read read' A B) (source : Source) :
    Load.Coupled (read ≠ read') (fun t t' => t = t' ∨ ∃ d ∈ t.parents, read d.name ≠ read' d.name)
      (Template.compile A source) (Template.compile B source) := by
  unfold Template.compile
  rw [h.markup]
  refine (Load.coupled_ofExcept _).bind fun tokens _ htokens => ?_
  subst htokens
  have hdraft := Draft.build_coupled (ancestry_coupled h) [source.name] source.origin (Node.ofTokens tokens)
  have hset : Load.Coupled (read ≠ read') (fun set set' => set = set' ∨ set.lineage.Strays read read')
      (BlockSet.build A [source.name] source.origin (Node.ofTokens tokens))
      (BlockSet.build B [source.name] source.origin (Node.ofTokens tokens)) := by
    refine hdraft.bind fun d d' hd => .pure ?_
    rcases hd with rfl | hd
    · exact .inl rfl
    · exact .inr hd
  refine hset.bind fun set set' hset => ?_
  have hinstructions : Load.Coupled (read ≠ read') (fun r r' => r = r' ∨ r.2.Strays read read')
      ((set.instructions A).runFrom set.lineage) ((set'.instructions B).runFrom set'.lineage) := by
    rcases hset with rfl | hset
    · exact BlockSet.instructions_coupled h set set.lineage
    · exact (set.instructions_grows h.left).coupled_of_strays hset
  refine hinstructions.bind fun r r' hr => ?_
  rcases hr with rfl | hr
  · refine (Load.coupled_ofExcept _).bind fun program _ hprogram => ?_
    subst hprogram
    exact .pure (.inl rfl)
  · have hstrays : Load.Ensures (fun t : Template => ∃ d ∈ t.parents, read d.name ≠ read' d.name) (do
        let program ← Load.ofExcept (Program.link source.origin r.1)
        return ⟨source.name, source.origin, tokens, r.2.ancestors.map Ancestor.dependency, program⟩ :
          Load σ Template) := by
      refine (Load.ensures_ofExcept fun _ _ => trivial).bind fun program _ => .pure ?_
      obtain ⟨a, ha, hne⟩ := hr
      exact ⟨a.dependency, List.mem_map_of_mem ha, hne⟩
    exact .of_differ hr.ne hstrays (fun _ _ _ => trivial) fun _ _ ht _ => .inr ht

/-- Compiling comes to the same in every session. -/
theorem Template.compile_outcome_eq (h : Sources.Coupled read read A B) (source : Source) (s : Session σ)
    (t : Session σ') : ((Template.compile A source).run.run s).1 = ((Template.compile B source).run.run t).1 := by
  have hmatch := Template.compile_coupled h source s t
  generalize ((Template.compile A source).run.run s).1 = r, ((Template.compile B source).run.run t).1 = r' at hmatch ⊢
  cases hmatch with
  | ok hab =>
    rcases hab with rfl | ⟨d, -, hne⟩
    · rfl
    · exact absurd rfl hne
  | error e => rfl
  | left _ _ hne => exact absurd rfl hne
  | right _ _ hne => exact absurd rfl hne

/-- Where the recorded parents are read in one way, the template is the same. -/
theorem Template.eq_of_parents_read {source : Source} {t t' : Template} {s s₁ : Session σ} {s' s₁' : Session σ'}
    (h : Sources.Coupled read read' A B) (ht : (Template.compile A source).run.run s = (.ok t, s₁))
    (ht' : (Template.compile B source).run.run s' = (.ok t', s₁'))
    (hparents : ∀ d ∈ t.parents, read d.name = read' d.name) : t = t' := by
  have hmatch := Template.compile_coupled h source s s'
  rw [ht, ht'] at hmatch
  cases hmatch with
  | ok hab =>
    rcases hab with rfl | ⟨d, hd, hne⟩
    · rfl
    · exact absurd (hparents d hd) hne

end Sources

end Coupled

end Stencil
