import Stencil.Proofs.Guard

/-!
# The ancestors that are recorded

The parents that a template records are exactly its ancestors, nearest first: the first one is read under the name that
the template itself gives in its last `extends`, each further one under the name that the one before gives there, and
the last one names none (`Lineal`, `Template.lineal_of_compile`). No name stands among them twice.

The machine that compiles is followed. The ancestors of every template that is underway are `Ascending` in this way, as
far as they have been read. Each step keeps that (`Assembly.Steps.traced`).
-/

namespace Stencil

variable {σ : Type} {read : String → Except Error Source} {m : Markup}

/-! ## Chains of parents -/

/-- The parent that nodes name where it counts, in their last `extends`. -/
def lastParent? (nodes : List Node) : Option Parent := (nodes.filterMap Node.parent?).getLast?

/-- What is read under the names of parents, each of them named by the one before, up to the next parent to be
read. -/
inductive Lineal (read : String → Except Error Source) (m : Markup) :
    Option Parent → List Dependency → Option Parent → Prop
  | here (next : Option Parent) : Lineal read m next [] next
  | up {p : Parent} {source : Source} {tokens : List Token} {ds : List Dependency} {next : Option Parent} :
    read p.name = .ok source → source.tokens m = .ok tokens →
      Lineal read m (lastParent? (Node.ofTokens tokens)) ds next → Lineal read m (some p) (source.dependency :: ds) next

/-- The ancestors are those of such a chain, and they name the parents that it goes on with. -/
inductive Ascends (read : String → Except Error Source) (m : Markup) :
    Option Parent → List Ancestor → Option Parent → Prop
  | here (next : Option Parent) : Ascends read m next [] next
  | up {p : Parent} {source : Source} {tokens : List Token} {layer : Layer} {as : List Ancestor}
      {next : Option Parent} :
    read p.name = .ok source → source.tokens m = .ok tokens → layer.parent = lastParent? (Node.ofTokens tokens) →
      Ascends read m layer.parent as next → Ascends read m (some p) (⟨source.dependency, layer⟩ :: as) next

section Ascends

variable {start next next' : Option Parent} {as bs : List Ancestor}

theorem Ascends.lineal (h : Ascends read m start as next) :
    Lineal read m start (as.map Ancestor.dependency) next := by
  induction h with
  | here next => exact .here next
  | up hread htokens hparent _ ih => exact .up hread htokens (hparent ▸ ih)

theorem Ascends.append (h : Ascends read m start as next) (h' : Ascends read m next bs next') :
    Ascends read m start (as ++ bs) next' := by
  induction h with
  | here next => exact h'
  | up hread htokens hparent _ ih => exact .up hread htokens hparent (ih h')

/-- The last of the ancestors names the next parent. -/
theorem Ascends.next_eq (h : Ascends read m start as next) :
    next = as.getLast?.elim start fun a => a.layer.parent := by
  induction h with
  | here next => rfl
  | @up p source tokens layer as next _ _ _ _ ih =>
    rw [ih, List.getLast?_cons]
    cases as.getLast? <;> rfl

/-- An ancestor that names no parent is the last one. -/
theorem Ascends.next_eq_none {a : Ancestor} (h : Ascends read m start as next) (hm : a ∈ as)
    (ha : a.layer.parent = none) : next = none := by
  induction h with
  | here => cases hm
  | up _ _ _ h ih =>
    rcases List.mem_cons.mp hm with rfl | hm
    · rw [ha] at h
      cases h
      rfl
    · exact ih hm

end Ascends

/-- The ancestors of the lineage that have been read are those of its parent. -/
def Lineage.Ascending (read : String → Except Error Source) (m : Markup) (l : Lineage) : Prop :=
  Ascends read m l.parent l.ancestors (l.next?.map Prod.snd)

section Lineage

variable {l behind : Lineage} {layer : Layer}

theorem Lineage.next?_eq (l : Lineage) :
    l.next?.map Prod.snd = l.ancestors.getLast?.elim l.parent fun a => a.layer.parent := by
  unfold next?
  cases l.ancestors.getLast? <;> simp [Function.comp_def]

/-- What comes behind a lineage names its next parent. -/
theorem Lineage.next?_extend {dependency : Dependency} (h : layer.parent = behind.parent) :
    (l.extend (⟨dependency, layer⟩ :: behind.ancestors)).next?.map Prod.snd = behind.next?.map Prod.snd := by
  rw [next?_eq, next?_eq, Lineage.extend]
  simp only [List.getLast?_append, List.getLast?_cons, Option.some_or, Option.elim_some]
  cases behind.ancestors.getLast? <;> simp [h]

theorem Lineage.ascending_start (chain : List String) (origin : String) (parent : Option Parent) :
    Lineage.Ascending read m ⟨chain, origin, parent, []⟩ := by
  rw [Ascending, next?_eq]
  exact .here _

/-- The next parent is put behind the lineage, with the ancestors that it has read itself. -/
theorem Lineage.Ascending.extend {p : Parent} {source : Source} {tokens : List Token} (h : l.Ascending read m)
    (hp : l.next?.map Prod.snd = some p) (hread : read p.name = .ok source) (htokens : source.tokens m = .ok tokens)
    (hb : behind.Ascending read m) (hparent : behind.parent = lastParent? (Node.ofTokens tokens))
    (hlayer : layer.parent = behind.parent) :
    (l.extend (⟨source.dependency, layer⟩ :: behind.ancestors)).Ascending read m := by
  rw [Ascending, hp] at h
  rw [Ascending, next?_extend hlayer]
  refine h.append (.up hread htokens (hlayer.trans hparent) ?_)
  rw [hlayer]
  exact hb

/-- A lineage that has found its last ancestor has read them all. -/
theorem Lineage.Ascending.next?_eq_none (h : l.Ascending read m)
    (hn : l.find? (fun _ => false) = none → l.next? = none) : l.next? = none := by
  rcases hf : l.find? fun _ => false with _ | layer
  · exact hn hf
  · obtain ⟨a, ha, rfl⟩ := Option.map_eq_some_iff.mp hf
    have hnone : a.layer.parent = none := by simpa using List.find?_some ha
    exact Option.map_eq_none_iff.mp (Ascends.next_eq_none h (List.mem_of_find?_eq_some ha) hnone)

end Lineage

/-! ## Templates that are underway -/

/-- How far a job has come with nodes: the parent is the last one that those behind it name, and places are filled only
when all ancestors have been read. -/
inductive Job.Follows (nodes : List Node) : Job → Prop
  | walk {d : Draft} {seen rest : List Node} : nodes = seen ++ rest → d.lineage.parent = lastParent? seen →
    Follows nodes (.walk d rest)
  | order {set : BlockSet} {l : Lineage} : l.parent = lastParent? nodes → Follows nodes (.order set l)
  | fill {set : BlockSet} {l : Lineage} {names : List BlockName} {filled : List (List Located)} :
    l.parent = lastParent? nodes → l.next? = none → Follows nodes (.fill set l names filled)

/-- The template is built from the nodes, and the ancestors that it has read are its own. -/
structure Underway.Traces (read : String → Except Error Source) (m : Markup) (nodes : List Node) (u : Underway) :
    Prop where
  follows : u.job.Follows nodes
  ascending : u.job.lineage.Ascending read m

section Traces

variable {u : Underway} {nodes : List Node} {job : Job} {p : Parent}

theorem lastParent?_concat (nodes : List Node) (node : Node) :
    lastParent? (nodes ++ [node]) = node.parent?.or (lastParent? nodes) := by
  rw [lastParent?, lastParent?, List.filterMap_append, List.getLast?_append]
  cases h : node.parent? <;> simp [h]

/-- A search that has not asked for a parent is over. -/
theorem Job.next?_of_asks?_eq_none {stops : Layer → Bool} (h : job.asks? = none) (hs : job.seeks? = some stops)
    (hf : job.lineage.find? stops = none) : job.lineage.next? = none := by
  rwa [asks?, found?, hs, Option.bind_some, hf, if_pos ⟨rfl, rfl⟩] at h

/-- A search that asks for a parent asks for the next one. -/
theorem Job.next?_of_asks?_eq_some {origin : String} (h : job.asks? = some (origin, p)) :
    job.lineage.next?.map Prod.snd = some p := by
  unfold asks? at h
  split at h
  · rw [h]
    rfl
  · cases h

theorem Underway.Traces.proceed (h : u.Traces read m nodes) (hasks : u.job.asks? = none)
    (hp : u.job.Proceeds job) : Underway.Traces read m nodes { u with job } := by
  obtain ⟨dependency, job₀⟩ := u
  obtain ⟨hfollows, hascending⟩ := h
  cases hp with
  | @walk d d' node rest hlineage =>
    cases hfollows with
    | @walk _ seen _ hnodes hparent =>
      have hlast := lastParent?_concat seen node
      refine ⟨.walk (show nodes = (seen ++ [node]) ++ rest by rw [hnodes, List.append_assoc]; rfl) ?_, ?_⟩
      · rw [hlineage, hlast]
        rcases node.parent? with _ | p
        · exact hparent
        · rfl
      · simp only [Job.lineage, hlineage]
        rcases node.parent? with _ | p
        · exact hascending
        · exact Lineage.ascending_start ..
  | order set l names =>
    cases hfollows with
    | order hparent =>
      exact ⟨.fill hparent (hascending.next?_eq_none (Job.next?_of_asks?_eq_none hasks rfl)), hascending⟩
  | fill =>
    cases hfollows with
    | fill hparent hnext => exact ⟨.fill hparent hnext, hascending⟩

/-- A template that waited for its next parent goes on with it. -/
theorem Underway.Traces.resume {source : Source} {tokens : List Token} {behind : Lineage} {layer : Layer}
    (h : u.Traces read m nodes) (hp : u.job.lineage.next?.map Prod.snd = some p) (hread : read p.name = .ok source)
    (htokens : source.tokens m = .ok tokens) (hb : behind.Ascending read m)
    (hparent : behind.parent = lastParent? (Node.ofTokens tokens)) (hlayer : layer.parent = behind.parent) :
    Underway.Traces read m nodes { u with
      job := u.job.withLineage (u.job.lineage.extend (⟨source.dependency, layer⟩ :: behind.ancestors)) } := by
  obtain ⟨dependency, job⟩ := u
  have hextend := h.ascending.extend hp hread htokens hb hparent hlayer
  refine ⟨?_, by rwa [Job.lineage_withLineage]⟩
  cases h.follows with
  | walk hnodes hlast => exact .walk hnodes hlast
  | order hlast => exact .order hlast
  | fill hlast hnext =>
    change Option.map Prod.snd _ = _ at hp
    simp only [Job.lineage, hnext] at hp
    cases hp

end Traces

/-- The nodes of the template are still walked over. -/
def Job.IsWalk (job : Job) : Prop := ∃ d rest, job = .walk d rest

/-- Each template that is underway is walked over, as the next parent of the one that waits for it. The outermost one is
built from the given nodes. -/
inductive Underway.Traced (read : String → Except Error Source) (m : Markup) (nodes : List Node) :
    List Underway → Prop
  | root {u : Underway} : u.Traces read m nodes → Traced read m nodes [u]
  | on {u v : Underway} {below : List Underway} {p : Parent} {source : Source} {tokens : List Token} :
    v.job.lineage.next?.map Prod.snd = some p → read p.name = .ok source → source.tokens m = .ok tokens →
      u.dependency = source.dependency → u.job.IsWalk → u.Traces read m (Node.ofTokens tokens) →
        Traced read m nodes (v :: below) → Traced read m nodes (u :: v :: below)

/-- The innermost one goes on. -/
theorem Underway.Traced.turn {nodes : List Node} {u : Underway} {below : List Underway} {job : Job}
    (h : Underway.Traced read m nodes (u :: below)) (hwalk : u.job.IsWalk → job.IsWalk)
    (htraces : ∀ {nodes}, u.Traces read m nodes → Underway.Traces read m nodes { u with job }) :
    Underway.Traced read m nodes ({ u with job } :: below) := by
  cases h with
  | root hu => exact .root (htraces hu)
  | on hp hread htokens hdependency hw hu hbelow =>
    exact .on hp hread htokens hdependency (hwalk hw) (htraces hu) hbelow

namespace Assembly

variable {sources : Sources σ} {c c' : Assembly σ} {nodes : List Node}

/-- One step keeps the trace. -/
theorem Steps.traced (hreads : sources.Reads read) (h : c.Steps sources c')
    (hc : Underway.Traced read sources.markup nodes (c.active :: c.waiting)) :
    Underway.Traced read sources.markup nodes (c'.active :: c'.waiting) := by
  cases h with
  | @leave d hjob =>
    -- what the template that is left has come to
    have hbuilt {nodes : List Node} (h : c.active.Traces read sources.markup nodes) :
        d.lineage.Ascending read sources.markup ∧ d.lineage.parent = lastParent? nodes := by
      obtain ⟨hfollows, hascending⟩ := h
      rw [hjob] at hfollows hascending
      cases hfollows with
      | walk hnodes hparent =>
        rw [List.append_nil] at hnodes
        exact ⟨hascending, hnodes ▸ hparent⟩
    unfold Assembly.leave
    split
    · next hwaiting =>
      rw [hwaiting] at hc
      change Underway.Traced read sources.markup nodes (_ :: c.waiting)
      rw [hwaiting]
      cases hc with
      | root htraces => exact .root ⟨.order (hbuilt htraces).2, (hbuilt htraces).1⟩
    · next caller waiting hwaiting =>
      rw [hwaiting] at hc
      cases hc with
      | @on _ _ _ p source tokens hp hread htokens hdependency hwalk htraces hrest =>
        obtain ⟨hascending, hparent⟩ := hbuilt htraces
        refine hrest.turn ?_ fun hcaller => ?_
        · rintro ⟨d', rest, hcaller⟩
          rw [hcaller]
          exact ⟨_, rest, rfl⟩
        · rw [hdependency]
          exact hcaller.resume hp hread htokens hascending hparent rfl
  | @call origin p source tokens session hasks hrefusal hsource htokens =>
    rw [hreads.source_eq] at hsource
    have hread : read p.name = .ok source := congrArg Prod.fst hsource
    refine .on (Job.next?_of_asks?_eq_some hasks) hread htokens rfl ⟨_, _, rfl⟩ ?_ hc
    exact ⟨.walk (List.nil_append _).symm rfl, Lineage.ascending_start ..⟩
  | proceed session hasks hproceeds =>
    refine hc.turn ?_ fun htraces => htraces.proceed hasks hproceeds
    rintro ⟨d, rest, hjob⟩
    rw [hjob] at hproceeds
    cases hproceeds with
    | walk => exact ⟨_, _, rfl⟩

theorem Steps.tokens_eq (h : c.Steps sources c') : c'.tokens = c.tokens := by
  cases h with
  | leave =>
    unfold Assembly.leave
    split <;> rfl
  | call | proceed => rfl

end Assembly

/-- The machine traces the template all along. -/
theorem Assembly.traced_of_advance {sources : Sources σ} (hreads : sources.Reads read) {source : Source}
    {tokens : List Token} (htokens : source.tokens sources.markup = .ok tokens) {session : Session σ} {n : Nat}
    {c : Assembly σ} (h : (Stage.advance sources)^[n] (Assembly.start sources source session) = .running c) :
    c.tokens = tokens ∧ Underway.Traced read sources.markup (Node.ofTokens tokens) (c.active :: c.waiting) := by
  refine Stage.invariant (I := fun c => c.tokens = tokens ∧
    Underway.Traced read sources.markup (Node.ofTokens tokens) (c.active :: c.waiting)) ?_ ?_ h
  · exact fun c c' hc hsteps => ⟨hsteps.tokens_eq.trans hc.1, hsteps.traced hreads hc.2⟩
  · intro c hc
    rw [Assembly.start, htokens] at hc
    cases hc
    exact ⟨rfl, .root ⟨.walk (List.nil_append _).symm rfl, Lineage.ascending_start ..⟩⟩

/-! ## Compiling -/

/-- **The recorded parents are the ancestors.** They are read one after the other, each under the name that the one
before it names, up to one that names none, and no name stands among them twice. -/
theorem Template.lineal_of_compile {sources : Sources σ} (hreads : sources.Reads read) {source : Source} {t : Template}
    {session session' : Session σ} (ht : (compile sources source).run.run session = (.ok t, session')) :
    source.tokens sources.markup = .ok t.tokens ∧
      Lineal read sources.markup (lastParent? (Node.ofTokens t.tokens)) t.parents none ∧
        (source.name :: t.parents.map Dependency.name).Nodup := by
  have hcomes := Assembly.start_comes sources source session
  rw [ht] at hcomes
  obtain ⟨tokens, _, htokens, -⟩ := of_run_bind_eq_ok ht
  have htokens : source.tokens sources.markup = .ok tokens := congrArg Prod.fst htokens
  rcases hcomes.exists_last with hended | ⟨n, c, hrun, hstep⟩
  · rw [Assembly.start, htokens] at hended
    cases hended
  · obtain ⟨rfl, htraced⟩ := Assembly.traced_of_advance hreads htokens hrun
    have hstacked := Assembly.stacked_of_advance hreads.named hrun
    obtain ⟨set, l, filled, hjob, hsame, hparents⟩ := Assembly.of_step_eq_ended hstep
    rw [hsame, hparents]
    -- places are filled for the outermost template only
    generalize c.waiting = waiting at htraced hstacked
    cases htraced with
    | on _ _ _ _ hwalk =>
      obtain ⟨d, rest, hwalk⟩ := hwalk
      rw [hwalk] at hjob
      cases hjob
    | root htraces =>
      obtain ⟨hfollows, hascending⟩ := htraces
      cases hstacked with
      | root hguarded hchain =>
        rw [hjob] at hfollows hascending hguarded hchain
        cases hfollows with
        | fill hparent hnext =>
          have hlineal := Ascends.lineal hascending
          simp only [Job.lineage] at hlineal hchain hguarded
          rw [hparent, hnext] at hlineal
          have hnodup := hguarded.nodup
          rw [Lineage.names, hchain] at hnodup
          refine ⟨htokens, hlineal, ?_⟩
          rw [List.map_map]
          exact hnodup

end Stencil
