import Stencil.Proofs.Guard

/-!
# Fetching the next parent

Ancestors are looked for one parent at a time. What stands behind a lineage once its next parent has been read is
fetched by one load (`Lineage.fetch`), and a search that its lineage does not settle fetches the next parent and then
goes on searching (`run_nearest_of_waits`).

The number of steps that a search has left is of no account as long as it is enough (`run_nearest_eq`), since what is
fetched does not depend on it either (`Lineage.fetch_congr`). So a search is the same before and after a parent has been
fetched (`run_ancestry_of_waits`).
-/

namespace Stencil

variable {σ α β : Type}

/-! ## Lineages that are extended -/

section Extend

variable {l : Lineage} {as bs : List Ancestor} {stops : Layer → Bool} {layer : Layer}

@[simp] theorem Lineage.extend_nil : l.extend [] = l := by simp [extend]

@[simp] theorem Lineage.extend_extend : (l.extend as).extend bs = l.extend (as ++ bs) := by simp [extend]

@[simp] theorem Lineage.names_extend_eq : (l.extend as).names = l.names ++ as.map fun a => a.dependency.name := by
  simp [extend, names]

/-- What has been found is found in a longer lineage. -/
theorem Lineage.find?_extend (h : l.find? stops = some layer) : (l.extend as).find? stops = some layer := by
  unfold find? extend at *
  rw [List.find?_append]
  obtain ⟨a, ha, rfl⟩ := Option.map_eq_some_iff.mp h
  rw [ha]
  rfl

end Extend

/-! ## The next parent -/

/-- Reads the next parent of the lineage, if there is one. This gives the ancestors that come behind the lineage. -/
def Lineage.fetch (sources : Sources σ) (ancestor : Ancestry σ) (l : Lineage) : Load σ (List Ancestor) :=
  match l.next? with
  | none => return []
  | some (origin, p) => do
    if let some refusal := l.refusal? origin p then throw refusal
    let source ← sources.source p.name
    let tokens ← Load.ofExcept (source.tokens sources.markup)
    let d ← Draft.build ancestor (l.names ++ [p.name]) source.origin (Node.ofTokens tokens)
    return ⟨source.dependency, d.layer⟩ :: d.lineage.ancestors

/-- Puts behind the lineage what is fetched. -/
def Ascent.fetch (sources : Sources σ) (ancestor : Ancestry σ) : Ascent σ Unit := do
  let as ← Work.ofLoad ((← Work.own).fetch sources ancestor)
  Work.update fun l => l.extend as

section Fetch

variable {sources : Sources σ} {ancestor : Ancestry σ} {l l' : Lineage} {s s' : Session σ} {as : List Ancestor}
  {origin : String} {p : Parent} {e : Error}

theorem Lineage.fetch_of_refusal (hnext : l.next? = some (origin, p)) (h : l.refusal? origin p = some e) :
    l.fetch sources ancestor = throw e := by
  unfold fetch
  rw [hnext]
  dsimp only
  rw [h]
  rfl

theorem Lineage.fetch_of_not_refused (hnext : l.next? = some (origin, p)) (h : l.refusal? origin p = none) :
    l.fetch sources ancestor = sources.source p.name >>= fun source =>
      Load.ofExcept (source.tokens sources.markup) >>= fun tokens =>
        Draft.build ancestor (l.names ++ [p.name]) source.origin (Node.ofTokens tokens) >>= fun d =>
          pure (⟨source.dependency, d.layer⟩ :: d.lineage.ancestors) := by
  unfold fetch
  rw [hnext]
  dsimp only
  rw [h]

theorem Ascent.run_fetch_of_ok (h : (l.fetch sources ancestor).run.run s = (.ok as, s')) :
    (Ascent.fetch sources ancestor).run.run (l, s) = (.ok (), l.extend as, s') :=
  run_bind_of_ok (Work.run_ofLoad l h)

theorem Ascent.run_fetch_of_error (h : (l.fetch sources ancestor).run.run s = (.error e, s')) :
    (Ascent.fetch sources ancestor).run.run (l, s) = (.error e, l, s') := by
  have hown : (Work.own : Ascent σ Lineage).run.run (l, s) = (.ok l, l, s) := rfl
  exact (run_bind_of_ok hown).trans (run_bind_of_error (Work.run_ofLoad l h))

end Fetch

/-! ## Searching -/

theorem Work.ofLoad_bind {κ : Type} (x : Load σ α) (f : α → Load σ β) :
    (Work.ofLoad (x >>= f) : Work κ σ β) = Work.ofLoad x >>= fun a => Work.ofLoad (f a) := by
  refine ExceptT.ext (funext fun (k, s) => ?_)
  rcases hx : x.run.run s with ⟨e | a, s'⟩
  · exact (Work.run_ofLoad k (run_bind_of_error hx)).trans (run_bind_of_error (Work.run_ofLoad k hx)).symm
  · rcases hf : (f a).run.run s' with ⟨r, s''⟩
    have hleft := Work.run_ofLoad k ((run_bind_of_ok (f := f) hx).trans hf)
    have hright := run_bind_of_ok (f := fun a => (Work.ofLoad (f a) : Work κ σ β)) (Work.run_ofLoad k hx)
    exact hleft.trans (hright.trans (Work.run_ofLoad k hf)).symm

theorem Work.ofLoad_pure {κ : Type} (a : α) : (Work.ofLoad (pure a : Load σ α) : Work κ σ α) = pure a := rfl

section Nearest

variable {sources : Sources σ} {steps : Nat} {stops : Layer → Bool} {l : Lineage} {s : Session σ} {layer : Layer}

theorem run_nearest_of_find? (h : l.find? stops = some layer) :
    (nearest sources (steps + 1) stops).run.run (l, s) = (.ok (some layer), l, s) := by
  have hown : (Work.own : Ascent σ Lineage).run.run (l, s) = (.ok l, l, s) := rfl
  unfold nearest
  rw [run_bind_of_ok hown]
  dsimp only
  rw [h]
  rfl

theorem run_nearest_of_next? (h : l.find? stops = none) (hnext : l.next? = none) :
    (nearest sources (steps + 1) stops).run.run (l, s) = (.ok none, l, s) := by
  have hown : (Work.own : Ascent σ Lineage).run.run (l, s) = (.ok l, l, s) := rfl
  unfold nearest
  rw [run_bind_of_ok hown]
  dsimp only
  rw [h, hnext]
  rfl

/-- Where the lineage does not settle the search, the next parent is fetched, and then the search goes on. -/
theorem run_nearest_of_waits (h : l.find? stops = none) (hnext : l.next?.isSome) :
    (nearest sources (steps + 1) stops).run.run (l, s) =
      (Ascent.fetch sources (nearest sources steps) >>= fun _ => nearest sources steps stops).run.run (l, s) := by
  have hown : (Work.own : Ascent σ Lineage).run.run (l, s) = (.ok l, l, s) := rfl
  obtain ⟨⟨origin, p⟩, hnext⟩ := Option.isSome_iff_exists.mp hnext
  unfold Ascent.fetch
  rw [bind_assoc, run_bind_of_ok hown, bind_assoc]
  conv_lhs => unfold nearest
  rw [run_bind_of_ok hown]
  dsimp only
  rw [h, hnext]
  dsimp only
  rcases hrefusal : l.refusal? origin p with _ | e
  · rw [Lineage.fetch_of_not_refused hnext hrefusal]
    simp only [Work.ofLoad_bind, Work.ofLoad_pure, bind_assoc, pure_bind]
  · rw [Lineage.fetch_of_refusal hnext hrefusal]
    rfl

/-- A lineage settles a search at once, however many steps are left, or else the next parent has to be fetched. -/
theorem settled_or_waits (sources : Sources σ) (stops : Layer → Bool) (l : Lineage) :
    (∃ r, ∀ steps s, (nearest sources (steps + 1) stops).run.run (l, s) = (.ok r, l, s)) ∨
      l.find? stops = none ∧ l.next?.isSome := by
  rcases hf : l.find? stops with _ | layer
  · rcases hnext : l.next? with _ | o
    · exact .inl ⟨none, fun _ _ => run_nearest_of_next? hf hnext⟩
    · exact .inr ⟨rfl, rfl⟩
  · exact .inl ⟨some layer, fun _ _ => run_nearest_of_find? hf⟩

/-- However a search ends, it leaves the lineage with further ancestors behind. -/
theorem exists_extend_of_nearest (sources : Sources σ) (steps : Nat) (stops : Layer → Bool) (l : Lineage)
    (s : Session σ) : ∃ as, ((nearest sources steps stops).run.run (l, s)).2.1 = l.extend as := by
  induction steps generalizing l s with
  | zero => exact ⟨[], Lineage.extend_nil.symm⟩
  | succ steps ih =>
    rcases settled_or_waits sources stops l with ⟨r, hr⟩ | ⟨hf, hnext⟩
    · rw [hr]
      exact ⟨[], Lineage.extend_nil.symm⟩
    · rw [run_nearest_of_waits hf hnext]
      rcases hfetch : (l.fetch sources (nearest sources steps)).run.run s with ⟨e | as, s'⟩
      · rw [run_bind_of_error (Ascent.run_fetch_of_error hfetch)]
        exact ⟨[], Lineage.extend_nil.symm⟩
      · rw [run_bind_of_ok (Ascent.run_fetch_of_ok hfetch)]
        obtain ⟨bs, hbs⟩ := ih (l.extend as) s'
        exact ⟨as ++ bs, by rw [hbs, Lineage.extend_extend]⟩

end Nearest

/-! ## Ways of finding ancestors that come to the same -/

/-- The search goes on from the lineage and leaves it with further ancestors behind. -/
def Ancestry.Extends (ancestor : Ancestry σ) : Prop :=
  ∀ stops l s r l' s', (ancestor stops).run.run (l, s) = (.ok r, l', s') → ∃ as, l' = l.extend as

theorem nearest_extends (sources : Sources σ) (steps : Nat) : Ancestry.Extends (nearest sources steps) := by
  intro stops l s r l' s' h
  obtain ⟨as, has⟩ := exists_extend_of_nearest sources steps stops l s
  rw [h] at has
  exact ⟨as, has⟩

/-- What follows a load has to be the same only for what the load can give. -/
theorem bind_congr_of_run {τ : Type} {x : ExceptT Error (StateM τ) α} {f g : α → ExceptT Error (StateM τ) β}
    (h : ∀ s a s', x.run.run s = (.ok a, s') → f a = g a) : x >>= f = x >>= g := by
  refine ExceptT.ext (funext fun s => ?_)
  rcases hx : x.run.run s with ⟨e | a, s'⟩
  · exact (run_bind_of_error hx).trans (run_bind_of_error hx).symm
  · refine (run_bind_of_ok hx).trans ((run_bind_of_ok hx).trans ?_).symm
    rw [h s a s' hx]

namespace Draft

variable {f g : Ancestry σ} {d d' : Draft} {node : Node} {nodes : List Node} {s s' : Session σ}

/-- Without a search, nothing is asked for, and only a node that names a parent changes the lineage. -/
theorem ensures_add_of_not_search (f : Ancestry σ)
    (h : ¬(node.kind = .directive .superBlock ∧ d.lineage.parent.isSome)) : Load.Ensures (fun d' => d'.lineage =
      node.parent?.elim d.lineage fun p => ⟨d.lineage.chain, d.lineage.origin, some p, []⟩) (d.add f node) := by
  have hgrows : Ancestry.Grows (fun name => .ok (Source.inMemory name "")) (fun _ => return none : Ancestry σ) :=
    fun _ => .pure none
  rw [add_eq_of_not_search f (fun _ => return none) h]
  refine fun s => ⟨?_, fun d' hd' => lineage_add_return (Prod.ext hd' rfl)⟩
  by_cases hkind : ∃ name, node.kind = .directive (.inherits name)
  · obtain ⟨name, hkind⟩ := hkind
    exact (ensures_add_inherits _ d hkind s).1
  · exact (ensures_add hgrows d (not_exists.mp hkind) s).1

theorem chain_add (hf : Ancestry.Extends f) (h : (d.add f node).run.run s = (.ok d', s')) :
    d'.lineage.chain = d.lineage.chain := by
  by_cases hsearch : node.kind = .directive .superBlock ∧ d.lineage.parent.isSome
  · rw [add_superBlock f hsearch.1 hsearch.2] at h
    obtain ⟨⟨r, l⟩, s₁, hrun, h⟩ := of_run_bind_eq_ok h
    obtain ⟨as, rfl⟩ := hf _ _ _ _ _ _ (Work.of_run_runFrom hrun)
    cases h
    rfl
  · rw [(ensures_add_of_not_search f hsearch s).2 d' (congrArg Prod.fst h)]
    cases node.parent? <;> rfl

theorem add_congr (h : ∀ stops, (f stops).runFrom d.lineage = (g stops).runFrom d.lineage) (node : Node) :
    d.add f node = d.add g node := by
  by_cases hsearch : node.kind = .directive .superBlock ∧ d.lineage.parent.isSome
  · rw [add_superBlock f hsearch.1 hsearch.2, add_superBlock g hsearch.1 hsearch.2, h]
  · exact add_eq_of_not_search f g hsearch

/-- It is enough that ancestors are found in the same way in lineages of the chain. -/
theorem build_congr (hf : Ancestry.Extends f) {chain : List String}
    (h : ∀ l : Lineage, l.chain = chain → ∀ stops, (f stops).runFrom l = (g stops).runFrom l) (origin : String)
    (nodes : List Node) : build f chain origin nodes = build g chain origin nodes := by
  suffices H : ∀ d : Draft, d.lineage.chain = chain → nodes.foldlM (add f) d = nodes.foldlM (add g) d from H _ rfl
  induction nodes with
  | nil => exact fun _ _ => rfl
  | cons node nodes ih =>
    intro d hd
    rw [List.foldlM_cons, List.foldlM_cons, ← add_congr (h _ hd) node]
    exact bind_congr_of_run fun s d' s' hadd => ih d' ((chain_add hf hadd).trans hd)

end Draft

theorem Work.runFrom_congr {κ : Type} {x y : Work κ σ α} {k : κ} (h : ∀ s, x.run.run (k, s) = y.run.run (k, s)) :
    x.runFrom k = y.runFrom k := by
  refine ExceptT.ext (funext fun s => ?_)
  rcases hrun : x.run.run (k, s) with ⟨r, k', s'⟩
  exact (Work.run_runFrom hrun).trans (Work.run_runFrom ((h s).symm.trans hrun)).symm

/-- What is fetched makes the lineage longer. -/
theorem Lineage.length_lt_of_fetch {sources : Sources σ} {ancestor : Ancestry σ} {l : Lineage} {s s' : Session σ}
    {as : List Ancestor} (hnext : l.next?.isSome) (h : (l.fetch sources ancestor).run.run s = (.ok as, s')) :
    l.names.length < maxExtends ∧ l.names.length < (l.extend as).names.length := by
  obtain ⟨⟨origin, p⟩, hnext⟩ := Option.isSome_iff_exists.mp hnext
  rcases hrefusal : l.refusal? origin p with _ | e
  · rw [fetch_of_not_refused hnext hrefusal] at h
    obtain ⟨source, _, -, h⟩ := of_run_bind_eq_ok h
    obtain ⟨tokens, _, -, h⟩ := of_run_bind_eq_ok h
    obtain ⟨d, _, -, h⟩ := of_run_bind_eq_ok h
    cases h
    refine ⟨length_lt_of_refusal?_eq_none hrefusal, ?_⟩
    rw [names_extend_eq, List.length_append, List.map_cons, List.length_cons]
    omega
  · rw [fetch_of_refusal hnext hrefusal] at h
    cases h

section Congr

variable {f g : Ancestry σ} {l : Lineage}

/-- The ancestries come to the same in longer lineages, if the lineage can become longer at all. -/
def Ancestry.SameBeyond (f g : Ancestry σ) (l : Lineage) : Prop :=
  ∀ l' : Lineage, l.names.length < l'.names.length → l.names.length < maxExtends → ∀ stops s,
    (f stops).run.run (l', s) = (g stops).run.run (l', s)

/-- The same ancestors are fetched. -/
theorem Lineage.fetch_congr (sources : Sources σ) (hf : Ancestry.Extends f) (h : Ancestry.SameBeyond f g l) :
    l.fetch sources f = l.fetch sources g := by
  rcases hnext : l.next? with _ | ⟨origin, p⟩
  · unfold fetch
    rw [hnext]
  · rcases hrefusal : l.refusal? origin p with _ | e
    · rw [fetch_of_not_refused hnext hrefusal, fetch_of_not_refused hnext hrefusal]
      refine bind_congr fun source => bind_congr fun tokens => congrArg (· >>= _) ?_
      refine Draft.build_congr hf (fun l' hl' stops => Work.runFrom_congr ?_) source.origin (Node.ofTokens tokens)
      have hle := l'.length_chain_le
      rw [hl', List.length_append] at hle
      exact h l' hle (length_lt_of_refusal?_eq_none hrefusal) stops
    · rw [fetch_of_refusal hnext hrefusal, fetch_of_refusal hnext hrefusal]

/-- Fetching and then searching comes to the same. -/
theorem run_fetch_bind_congr (sources : Sources σ) (hf : Ancestry.Extends f) (h : Ancestry.SameBeyond f g l)
    (hnext : l.next?.isSome) (stops : Layer → Bool) (s : Session σ) :
    (Ascent.fetch sources f >>= fun _ => f stops).run.run (l, s) =
      (Ascent.fetch sources g >>= fun _ => g stops).run.run (l, s) := by
  have hfetch := Lineage.fetch_congr sources hf h
  rcases hrun : (l.fetch sources f).run.run s with ⟨e | as, s'⟩
  · rw [run_bind_of_error (Ascent.run_fetch_of_error hrun),
      run_bind_of_error (Ascent.run_fetch_of_error (hfetch ▸ hrun))]
  · rw [run_bind_of_ok (Ascent.run_fetch_of_ok hrun), run_bind_of_ok (Ascent.run_fetch_of_ok (hfetch ▸ hrun))]
    obtain ⟨hmax, hlt⟩ := Lineage.length_lt_of_fetch hnext hrun
    exact h _ hlt hmax stops s'

end Congr

section Steps

variable (sources : Sources σ) (stops : Layer → Bool) {l : Lineage} (s : Session σ)

/-- **The steps that a search has left do not matter as long as they are enough.** -/
theorem run_nearest_eq {steps steps' : Nat} (hpos : 0 < steps) (hpos' : 0 < steps')
    (hsteps : maxExtends < steps + l.names.length) (hsteps' : maxExtends < steps' + l.names.length) :
    (nearest sources steps stops).run.run (l, s) = (nearest sources steps' stops).run.run (l, s) := by
  induction steps generalizing steps' stops l s with
  | zero => exact absurd hpos (lt_irrefl 0)
  | succ steps ih =>
    obtain ⟨steps', rfl⟩ := Nat.exists_eq_succ_of_ne_zero hpos'.ne'
    rcases settled_or_waits sources stops l with ⟨r, hr⟩ | ⟨hf, hnext⟩
    · rw [hr, hr]
    · rw [run_nearest_of_waits hf hnext, run_nearest_of_waits hf hnext]
      -- lineages with more names can do with one step less
      exact run_fetch_bind_congr sources (nearest_extends sources steps)
        (fun l' hlt hmax stops s => ih stops s (by omega) (by omega) (by omega) (by omega)) hnext stops s

/-- Where the lineage does not settle the search, the next parent is fetched, and then the same search goes on. -/
theorem run_ancestry_of_waits (h : l.find? stops = none) (hnext : l.next?.isSome) :
    (ancestry sources stops).run.run (l, s) =
      (Ascent.fetch sources (ancestry sources) >>= fun _ => ancestry sources stops).run.run (l, s) := by
  refine (run_nearest_of_waits h hnext).trans ?_
  have hextends := nearest_extends sources maxExtends
  refine run_fetch_bind_congr sources hextends (fun l' hlt hmax stops s => ?_) hnext stops s
  exact run_nearest_eq sources stops s (Nat.zero_lt_of_lt hmax) (Nat.succ_pos maxExtends) (by omega) (by omega)

end Steps

end Stencil
