import Stencil.Proofs.Steadiness

/-!
# What is asked for once

Where no template of a chain extends more than one other (`Single`), whatever a load asks for on behalf of a lineage is
a source under a name that the lineage does not have yet, and if the load succeeds, the lineage has it afterwards
(`Load.Accounts`). This holds for the nodes of a template one by one (`Draft.accounts_add`) and for every parent that is
fetched (`Lineage.accounts_fetch`, `accounts_nearest` by induction on the steps that a search has left).

So a course of steady work asks for nothing that its lineage has (`Ascent.Goes.new`). All that it asks for is kept,
unless it ends where no more can be fetched (`Ascent.Goes.mem_or_stuck`), and what is not kept is asked for again
(`Ascent.Steady.asks_again`).
-/

namespace Stencil

variable {α β : Type}

/-! ## Loads that account for what they ask -/

/-- Nothing is asked for but sources under names that are not among the given ones. -/
def Asked.New (before : List String) (asked : List Request) : Prop := ∀ r ∈ asked, ∃ name ∉ before, r = .source name

/-- The names are still there, and there are those that have been asked for. -/
structure Asked.Kept (before : List String) (asked : List Request) (after : List String) : Prop where
  subset : before ⊆ after
  mem : ∀ {name}, .source name ∈ asked → name ∈ after

/-- Beginning with some names, the load asks for nothing but new ones. What it gives has a property, and it has all
these names. -/
def Load.Accounts (before : List String) (P : α → Prop) (names : α → List String) (x : Load (List Request) α) : Prop :=
  ∀ s, ∃ asked, (x.run.run s).2.state = s.state ++ asked ∧ Asked.New before asked ∧
    ∀ a, (x.run.run s).1 = .ok a → P a ∧ Asked.Kept before asked (names a)

namespace Load

variable {before : List String} {P : α → Prop} {Q : β → Prop} {names : α → List String} {names' : β → List String}

/-- A load that asks for nothing. -/
theorem Ensures.accounts {P' : α → Prop} {x : Load (List Request) α} (h : Ensures P' x)
    (hP : ∀ a, P' a → P a ∧ before ⊆ names a) : Accounts before P names x := by
  intro s
  obtain ⟨hstate, ha⟩ := h s
  refine ⟨[], by rw [hstate, List.append_nil], nofun, fun a hr => ?_⟩
  obtain ⟨hPa, hnames⟩ := hP a (ha a hr)
  exact ⟨hPa, hnames, nofun⟩

theorem Accounts.mono {P' : α → Prop} {x : Load (List Request) α} (h : Accounts before P names x)
    (hP : ∀ a, P a → P' a) : Accounts before P' names x := by
  intro s
  obtain ⟨asked, hstate, hnew, hok⟩ := h s
  exact ⟨asked, hstate, hnew, fun a ha => ⟨hP a (hok a ha).1, (hok a ha).2⟩⟩

theorem Accounts.bind {x : Load (List Request) α} {f : α → Load (List Request) β} (h : Accounts before P names x)
    (hf : ∀ a, P a → Accounts (names a) Q names' (f a)) : Accounts before Q names' (x >>= f) := by
  intro s
  obtain ⟨asked, hstate, hnew, hok⟩ := h s
  rcases hx : x.run.run s with ⟨e | a, s'⟩
  · rw [hx] at hstate
    rw [run_bind_of_error hx]
    exact ⟨asked, hstate, hnew, nofun⟩
  · rw [hx] at hstate hok
    obtain ⟨hP, hkept⟩ := hok a rfl
    obtain ⟨asked', hstate', hnew', hok'⟩ := hf a hP s'
    rw [run_bind_of_ok hx]
    refine ⟨asked ++ asked', by rw [hstate', hstate, List.append_assoc], fun r hr => ?_, fun b hb => ?_⟩
    · rcases List.mem_append.mp hr with hr | hr
      · exact hnew r hr
      · obtain ⟨name, hname, rfl⟩ := hnew' r hr
        exact ⟨name, fun hm => hname (hkept.subset hm), rfl⟩
    · obtain ⟨hQ, hkept'⟩ := hok' b hb
      refine ⟨hQ, fun name hm => hkept'.subset (hkept.subset hm), fun hm => ?_⟩
      rcases List.mem_append.mp hm with hm | hm
      · exact hkept'.subset (hkept.mem hm)
      · exact hkept'.mem hm

theorem Accounts.pure {a : α} (h : P a) (hnames : before ⊆ names a) :
    Accounts before P names (pure a : Load (List Request) α) := by
  refine fun s => ⟨[], (List.append_nil _).symm, nofun, ?_⟩
  rintro _ ⟨⟩
  exact ⟨h, hnames, nofun⟩

theorem Accounts.throw (e : Error) : Accounts before P names (throw e : Load (List Request) α) :=
  fun _ => ⟨[], (List.append_nil _).symm, nofun, nofun⟩

end Load

/-! ## Chains in which every template extends once -/

/-- The names are those of templates that extend no more than one other, under one of these names again. -/
structure Single (read : String → Except Error Source) (m : Markup) (N : String → Prop) : Prop where
  once : ∀ {name}, N name → ExtendsOnceAt read m name
  parent : ∀ {name source tokens p}, N name → read name = .ok source → source.tokens m = .ok tokens →
    p ∈ (Node.ofTokens tokens).filterMap Node.parent? → N p.name

/-- The next parent has such a name. -/
def Lineage.Within (N : String → Prop) (l : Lineage) : Prop := ∀ p, l.next?.map Prod.snd = some p → N p.name

/-- Looking for an ancestor accounts for what it asks. -/
def Ancestry.Accounts (N : String → Prop) (ancestor : Ancestry (List Request)) : Prop :=
  ∀ stops (l : Lineage), l.Within N →
    Load.Accounts l.names (fun r => r.2.Within N ∧ l.Kin r.2) (fun r => r.2.names) ((ancestor stops).runFrom l)

section Single

variable {N : String → Prop} {l : Lineage} {d d' : Draft} {node : Node} {nodes : List Node}
  {ancestor : Ancestry (List Request)} {chain : List String} {origin : String} {p : Parent}

theorem Lineage.within_start {parent : Option Parent} (h : ∀ p, parent = some p → N p.name) :
    Lineage.Within N ⟨chain, origin, parent, []⟩ := by
  intro p hp
  rw [next?_eq] at hp
  exact h p hp

/-- The next parent is then that of the draft. -/
theorem Lineage.within_extend {dependency : Dependency} (h : d.lineage.Within N) :
    (l.extend (⟨dependency, d.layer⟩ :: d.lineage.ancestors)).Within N := by
  intro p hp
  rw [next?_extend rfl] at hp
  exact h p hp

/-- A draft whose next node names a parent has none yet, and there is no further one. -/
theorem Draft.Sole.of_parent?_eq_some (hd : d.Sole (node :: nodes)) (hp : node.parent? = some p) :
    d.lineage.names = d.lineage.chain ∧ nodes.filterMap Node.parent? = [] := by
  have hsingle := hd.single
  rw [List.filterMap_cons_some hp, List.length_append, List.length_cons] at hsingle
  rcases hparent : d.lineage.parent with _ | q
  · rw [Lineage.names, hd.rooted hparent]
    exact ⟨List.append_nil _, List.eq_nil_of_length_eq_zero (by omega)⟩
  · rw [hparent, Option.toList_some, List.length_singleton] at hsingle
    omega

/-- Taking up a node accounts for what it asks. -/
theorem Draft.accounts_add (h : Ancestry.Accounts N ancestor) (hd : d.Sole (node :: nodes)) (hl : d.lineage.Within N)
    (hnode : ∀ p, node.parent? = some p → N p.name) :
    Load.Accounts d.lineage.names
      (fun d' => d'.Sole nodes ∧ d'.lineage.Within N ∧ d'.lineage.chain = d.lineage.chain)
      (fun d' => d'.lineage.names) (d.add ancestor node) := by
  have hsingle := hd.single
  by_cases hsearch : node.kind = .directive .superBlock ∧ d.lineage.parent.isSome
  · have hparent : node.parent? = none := by rw [Node.parent?, hsearch.1]
    rw [List.filterMap_cons_none hparent] at hsingle
    rw [add_superBlock ancestor hsearch.1 hsearch.2]
    refine (h _ _ hl).bind fun r hr => .pure ⟨⟨?_, fun hnone => ?_⟩, hr.1, hr.2.chain⟩ fun _ => id
    · rwa [← hr.2.parent] at hsingle
    · rw [← hr.2.parent, show r.2.parent = none from hnone] at hsearch
      cases hsearch.2
  · have hadd := ensures_add_of_not_search ancestor hsearch
    rcases hparent : node.parent? with _ | p
    · rw [hparent] at hadd
      rw [List.filterMap_cons_none hparent] at hsingle
      refine hadd.accounts fun d' hd' => ?_
      rw [Option.elim_none] at hd'
      refine ⟨⟨⟨?_, ?_⟩, ?_, ?_⟩, ?_⟩ <;> rw [hd']
      · exact hsingle
      · exact hd.rooted
      · exact hl
      · exact fun _ => id
    · rw [hparent] at hadd
      obtain ⟨hnames, hrest⟩ := hd.of_parent?_eq_some hparent
      refine hadd.accounts fun d' hd' => ?_
      rw [Option.elim_some] at hd'
      refine ⟨⟨⟨?_, ?_⟩, ?_, ?_⟩, ?_⟩ <;> rw [hd']
      · rw [hrest]
        exact le_refl 1
      · exact fun hnone => absurd hnone (Option.some_ne_none p)
      · exact Lineage.within_start fun q hq => Option.some.inj hq ▸ hnode p hparent
      · rw [hnames, Lineage.names_start]
        exact fun _ => id

/-- So does walking over nodes that name no more than one parent. -/
theorem Draft.accounts_foldlM (h : Ancestry.Accounts N ancestor) (hd : d.Sole nodes) (hl : d.lineage.Within N)
    (hnodes : ∀ p ∈ nodes.filterMap Node.parent?, N p.name) :
    Load.Accounts d.lineage.names (fun d' => d'.lineage.Within N ∧ d'.lineage.chain = d.lineage.chain)
      (fun d' => d'.lineage.names) (nodes.foldlM (Draft.add ancestor) d) := by
  induction nodes generalizing d with
  | nil => exact .pure ⟨hl, rfl⟩ fun _ => id
  | cons node nodes ih =>
    rw [List.foldlM_cons]
    have hnode (p : Parent) (hp : node.parent? = some p) : N p.name :=
      hnodes p (List.mem_filterMap.mpr ⟨node, List.mem_cons_self, hp⟩)
    have hrest (p : Parent) (hp : p ∈ nodes.filterMap Node.parent?) : N p.name := by
      obtain ⟨node', hm, hp⟩ := List.mem_filterMap.mp hp
      exact hnodes p (List.mem_filterMap.mpr ⟨node', List.mem_cons_of_mem _ hm, hp⟩)
    refine (accounts_add h hd hl hnode).bind fun d' hd' => ?_
    obtain ⟨hsole, hwithin, hchain⟩ := hd'
    rw [← hchain]
    exact ih hsole hwithin hrest

theorem Draft.accounts_build (h : Ancestry.Accounts N ancestor) (hone : ExtendsOnce nodes)
    (hnodes : ∀ p ∈ nodes.filterMap Node.parent?, N p.name) :
    Load.Accounts chain (fun d => d.lineage.Within N ∧ d.lineage.chain = chain) (fun d => d.lineage.names)
      (build ancestor chain origin nodes) := by
  have hsole : (start chain origin none).Sole nodes := ⟨hone, fun _ => rfl⟩
  have hfold := accounts_foldlM h hsole (Lineage.within_start nofun) hnodes
  have hnames : (start chain origin none).lineage.names = chain := Lineage.names_start ..
  rwa [hnames] at hfold

end Single

/-! ## Fetching -/

section Fetch

variable {sources : Sources (List Request)} {read : String → Except Error Source} {N : String → Prop}
  {ancestor : Ancestry (List Request)} {l : Lineage}

/-- The loader is asked for a source. -/
theorem Sources.Tells.accounts (h : sources.Tells read) {before : List String} {name : String} (hname : name ∉ before) :
    Load.Accounts before (fun source => read name = .ok source) (fun _ => before ++ [name]) (sources.source name) := by
  intro s
  rw [h.run_eq]
  refine ⟨[.source name], rfl, ?_, fun source hsource => ⟨hsource, List.subset_append_left .., ?_⟩⟩
  · rintro _ (_ | ⟨_, ⟨⟩⟩)
    exact ⟨name, hname, rfl⟩
  · rintro name' (_ | ⟨_, ⟨⟩⟩)
    exact List.mem_append_right _ (List.mem_singleton_self _)

/-- Fetching a parent accounts for what it asks. -/
theorem Lineage.accounts_fetch (hsources : sources.Tells read) (hN : Single read sources.markup N)
    (h : Ancestry.Accounts N ancestor) (hl : l.Within N) :
    Load.Accounts l.names (fun as => (l.extend as).Within N) (fun as => (l.extend as).names)
      (l.fetch sources ancestor) := by
  rcases hnext : l.next? with _ | ⟨origin, p⟩
  · unfold fetch
    rw [hnext]
    refine .pure ?_ ?_ <;> rw [extend_nil]
    · exact hl
    · exact fun _ => id
  · rcases hrefusal : l.refusal? origin p with _ | e
    · rw [fetch_of_not_refused hnext hrefusal]
      have hp : N p.name := hl p (by rw [hnext]; rfl)
      refine (hsources.accounts (not_mem_of_refusal?_eq_none hrefusal)).bind fun source hsource => ?_
      refine ((Load.ensures_ofExcept fun _ htokens => htokens).accounts fun _ htokens => ⟨htokens, fun _ => id⟩).bind
        fun tokens htokens => ?_
      refine (Draft.accounts_build h (hN.once hp source tokens hsource htokens)
        fun q hq => hN.parent hp hsource htokens hq).bind fun d hd => .pure (within_extend hd.1) ?_
      have hname : source.dependency.name = p.name := hsources.name_eq hsource
      rw [names_extend (a := ⟨source.dependency, d.layer⟩) (by rw [hname]; exact hd.2)]
      exact fun _ => id
    · rw [fetch_of_refusal hnext hrefusal]
      exact .throw e

theorem Ascent.runFrom_fetch (sources : Sources (List Request)) (ancestor : Ancestry (List Request)) (l : Lineage) :
    (Ascent.fetch sources ancestor).runFrom l = l.fetch sources ancestor >>= fun as => pure ((), l.extend as) := by
  unfold Ascent.fetch
  simp only [Work.runFrom_bind, Work.runFrom_own, Work.runFrom_ofLoad, Work.runFrom_update, pure_bind, bind_assoc]

theorem accounts_nearest (hsources : sources.Tells read) (hN : Single read sources.markup N) (steps : Nat) :
    Ancestry.Accounts N (nearest sources steps) := by
  induction steps with
  | zero => exact fun stops l hl => .pure ⟨hl, rfl, rfl, rfl⟩ fun _ => id
  | succ steps ih =>
    intro stops l hl
    rcases settled_or_waits sources stops l with ⟨r, hr⟩ | ⟨hf, hnext⟩
    · rw [Work.runFrom_congr (y := pure r) (hr steps)]
      exact .pure ⟨hl, rfl, rfl, rfl⟩ fun _ => id
    · rw [Work.runFrom_congr fun s => run_nearest_of_waits hf hnext, Work.runFrom_bind, Ascent.runFrom_fetch,
        bind_assoc]
      refine (Lineage.accounts_fetch hsources hN ih hl).bind fun as has => ?_
      rw [pure_bind]
      exact (ih stops _ has).mono fun r hr => ⟨hr.1, hr.2.chain, hr.2.origin, hr.2.parent⟩

theorem accounts_ancestry (hsources : sources.Tells read) (hN : Single read sources.markup N) :
    Ancestry.Accounts N (ancestry sources) := accounts_nearest hsources hN _

end Fetch

/-! ## Courses -/

section Course

open Ascent (Goes Steady course)

variable {sources : Sources (List Request)} {read : String → Except Error Source} {N : String → Prop}
  {l l' : Lineage} {asked : List Request} {e : Error} {x : Ascent (List Request) α} {c : Course α} {name : String}

/-- What is asked for when the next parent is fetched is new, and is kept. -/
theorem Lineage.Fetches.accounts (hsources : sources.Tells read) (hN : Single read sources.markup N)
    (h : l.Fetches sources asked l') (hl : l.Within N) :
    Asked.New l.names asked ∧ l'.Within N ∧ Asked.Kept l.names asked l'.names := by
  obtain ⟨as, s, hrun, rfl, rfl⟩ := h.exists_run
  obtain ⟨asked, hstate, hnew, hok⟩ := accounts_fetch hsources hN (accounts_ancestry hsources hN) hl ⟨[], []⟩
  rw [hrun, List.nil_append] at hstate
  rw [hrun] at hok
  cases hstate
  exact ⟨hnew, hok as rfl⟩

/-- What is asked for in vain is new. -/
theorem Lineage.Stuck.new (hsources : sources.Tells read) (hN : Single read sources.markup N)
    (h : l.Stuck sources e asked) (hl : l.Within N) : Asked.New l.names asked := by
  obtain ⟨s, hrun, rfl⟩ := h.exists_run
  obtain ⟨asked, hstate, hnew, -⟩ := accounts_fetch hsources hN (accounts_ancestry hsources hN) hl ⟨[], []⟩
  rw [hrun, List.nil_append] at hstate
  cases hstate
  exact hnew

/-- A lineage that rises keeps its names. -/
theorem Lineage.Rises.names_subset (hsources : sources.Tells read) (hN : Single read sources.markup N)
    (h : l.Rises sources l') (hl : l.Within N) : l'.Within N ∧ l.names ⊆ l'.names := by
  induction h with
  | refl => exact ⟨hl, fun _ => id⟩
  | head hfetches _ ih =>
    obtain ⟨-, hwithin, hkept⟩ := hfetches.accounts hsources hN hl
    obtain ⟨hwithin', hsubset⟩ := ih hwithin
    exact ⟨hwithin', fun name hm => hsubset (hkept.subset hm)⟩

/-- A course asks for nothing that the lineage has. -/
theorem Ascent.Goes.new (hsources : sources.Tells read) (hN : Single read sources.markup N) (h : Goes sources l c)
    (hl : l.Within N) : Asked.New l.names c.asked := by
  induction h with
  | rests => exact nofun
  | stuck hstuck => exact hstuck.new hsources hN hl
  | fetches hfetches _ ih =>
    obtain ⟨hnew, hwithin, hkept⟩ := hfetches.accounts hsources hN hl
    intro r hr
    rcases List.mem_append.mp hr with hr | hr
    · exact hnew r hr
    · obtain ⟨name, hname, rfl⟩ := ih hwithin r hr
      exact ⟨name, fun hm => hname (hkept.subset hm), rfl⟩

/-- What a course asks for is kept, or else it ends where no more can be fetched. -/
theorem Ascent.Goes.mem_or_stuck (hsources : sources.Tells read) (hN : Single read sources.markup N)
    (h : Goes sources l c) (hl : l.Within N) (hname : .source name ∈ c.asked) :
    name ∈ c.lineage.names ∨ ∃ e asked, c.outcome = .error e ∧ c.lineage.Stuck sources e asked := by
  induction h with
  | rests => cases hname
  | stuck hstuck => exact .inr ⟨_, _, rfl, hstuck⟩
  | fetches hfetches hgoes ih =>
    obtain ⟨-, hwithin, hkept⟩ := hfetches.accounts hsources hN hl
    rcases List.mem_append.mp hname with hm | hm
    · exact .inl ((hgoes.rises.names_subset hsources hN hwithin).2 (hkept.mem hm))
    · exact ih hwithin hm

/-- What steady work asks for in a lineage it asks for again in a higher one that does not have it. -/
theorem Ascent.Steady.asks_again (hsources : sources.Tells read) (hN : Single read sources.markup N)
    (hx : Steady sources x) (h : l.Rises sources l') (hl : l.Within N) (hname : .source name ∈ (course x l).asked)
    (hnot : name ∉ l'.names) : .source name ∈ (course x l').asked := by
  induction h with
  | refl => exact hname
  | head hfetches hrises ih =>
    obtain ⟨-, hwithin, hkept⟩ := hfetches.accounts hsources hN hl
    refine ih hwithin ?_ hnot
    rcases hx.rests_or_waits _ with ⟨r, hr, -⟩ | hwaits
    · rw [hr] at hname
      cases hname
    · rw [hwaits.course_of_fetches hx.even hfetches] at hname
      refine (List.mem_append.mp hname).resolve_left fun hm => hnot ?_
      exact (hrises.names_subset hsources hN hwithin).2 (hkept.mem hm)

end Course

end Stencil
