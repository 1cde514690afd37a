import Mathlib.Logic.Function.Iterate
import Stencil.Proofs.Ancestors
import Stencil.Proofs.Reading

/-!
# Compiling step by step

The machine here compiles a template in small steps and without a bound on them: it takes up one node, fills one place,
or reads one parent. A template that looks for an ancestor waits while the next one is built, so there is a stack of
templates that are in the course of being built (`Assembly`). What is done for each of them is its `Job`.

`Assembly.step_cases` says all that a step can lead to, and `Stage.invariant` carries an invariant of the steps through
a run. `Assembly.start_comes` says that the machine comes to what `Template.compile` gives after finitely many steps. It
follows the search for ancestors by induction on the steps that the search has left (`searches`), and within it each
parent that is read (`Searches.reads`) and the nodes of each template one by one (`Searches.walks`).
-/

namespace Stencil

variable {σ α β : Type}

/-! ## Jobs -/

/-- What an ancestor has to be like to settle a call of the parent's block from inside a block of the given name. -/
def BlockName.sought (name : BlockName) (layer : Layer) : Bool :=
  match name with
  | .named _ => layer.settles name
  | .anonymous _ => true

/-- What is done for a template: its nodes are walked over, the order of its blocks is looked for, or the places are
filled one after the other. -/
inductive Job
  | walk (d : Draft) (nodes : List Node)
  | order (set : BlockSet) (lineage : Lineage)
  | fill (set : BlockSet) (lineage : Lineage) (names : List BlockName) (filled : List (List Located))

namespace Job

/-- The lineage of the template, as far as it has been read. -/
def lineage : Job → Lineage
  | walk d _ => d.lineage
  | order _ l => l
  | fill _ l _ _ => l

/-- The lineage has been read further. -/
def withLineage (l : Lineage) : Job → Job
  | walk d nodes => walk { d with lineage := l } nodes
  | order set _ => order set l
  | fill set _ names filled => fill set l names filled

/-- Which ancestor has to be found before the job can go on. -/
def seeks? : Job → Option (Layer → Bool)
  | walk d (node :: _) =>
    if node.kind = .directive .superBlock ∧ d.lineage.parent.isSome then some d.name.sought else none
  | walk _ [] => none
  | order _ _ => some fun _ => false
  | fill set _ (name :: _) _ => if set.layer.settles name then none else some fun layer => layer.settles name
  | fill _ _ [] _ => none

/-- Nothing is left to be done. -/
def isOver : Job → Bool
  | walk _ [] => true
  | fill _ _ [] _ => true
  | _ => false

/-- The ancestor that has been found. -/
def found? (job : Job) : Option Layer := job.seeks?.bind job.lineage.find?

/-- The parent that has to be read before the search goes on, and the origin of the template that names it. -/
def asks? (job : Job) : Option (String × Parent) :=
  if job.seeks?.isSome ∧ job.found?.isNone then job.lineage.next? else none

/-- The job goes on with the ancestor that has been found. -/
def proceed (found : Option Layer) : Job → Load σ Job
  | walk d (node :: nodes) => do return walk (← d.add (fun _ => return found) node) nodes
  | order set l => do
    let names := (found.getD set.layer).order
    if set.lineage.parent.isSome then set.warnOrphans names
    return fill set l names []
  | fill set l (name :: names) filled =>
    let block := if set.layer.settles name then set.layer.block? name else found.bind fun layer => layer.block? name
    return fill set l names (filled ++ [block.elim [] Block.instructions])
  | job => return job

end Job

/-! ## The steps -/

/-- A template in the course of being built or compiled, and what it was read from. -/
structure Underway where
  dependency : Dependency
  job : Job

/-- The machine between two steps: the template that is compiled and its tokens, what is being done, and what waits for
that to be done, innermost first. -/
structure Assembly (σ : Type) where
  source : Source
  tokens : List Token
  active : Underway
  waiting : List Underway
  session : Session σ

/-- What compiling comes to. -/
abbrev Compiled (σ : Type) := Except Error Template × Session σ

/-- The machine goes on, or it has come to its end. -/
inductive Stage (σ : Type)
  | running (c : Assembly σ)
  | ended (e : Compiled σ)

namespace Assembly

variable (c : Assembly σ)

/-- Some load is done, and then the machine goes on. -/
def perform (x : Load σ α) (k : α → Assembly σ → Stage σ) : Stage σ :=
  match x.run.run c.session with
  | (.ok a, session) => k a { c with session }
  | (.error e, session) => .ended (.error e, session)

/-- The active template has another job. -/
def turn (job : Job) : Assembly σ := { c with active := { c.active with job } }

/-- The active template waits for a parent that is built. -/
def call (dependency : Dependency) (d : Draft) (nodes : List Node) : Assembly σ :=
  { c with active := ⟨dependency, .walk d nodes⟩, waiting := c.active :: c.waiting }

/-- The nodes of the active template are walked over. If another one waits, it becomes the next ancestor there. -/
def leave (d : Draft) : Assembly σ :=
  match c.waiting with
  | [] => c.turn (.order ⟨d.lineage, d.blocks⟩ d.lineage)
  | caller :: waiting =>
    let lineage := caller.job.lineage.extend (⟨c.active.dependency, d.layer⟩ :: d.lineage.ancestors)
    { c with active := { caller with job := caller.job.withLineage lineage }, waiting }

/-- All places are filled, and the instructions are linked. -/
def finish (l : Lineage) (filled : List (List Located)) : Compiled σ :=
  ((Program.link c.source.origin filled.flatten).map fun program =>
    ⟨c.source.name, c.source.origin, c.tokens, l.ancestors.map Ancestor.dependency, program⟩, c.session)

/-- The next parent is read, unless it is refused. -/
def read (sources : Sources σ) (origin : String) (p : Parent) : Stage σ :=
  let l := c.active.job.lineage
  match l.refusal? origin p with
  | some e => .ended (.error e, c.session)
  | none =>
    c.perform (sources.source p.name) fun source c =>
      c.perform (Load.ofExcept (source.tokens sources.markup)) fun tokens c =>
        .running (c.call source.dependency (.start (l.names ++ [p.name]) source.origin none) (Node.ofTokens tokens))

/-- One step. -/
def step (sources : Sources σ) : Stage σ :=
  match c.active.job with
  | .walk d [] => .running (c.leave d)
  | .fill _ l [] filled => .ended (c.finish l filled)
  | job =>
    match job.asks? with
    | some (origin, p) => c.read sources origin p
    | none => c.perform (job.proceed job.found?) fun job c => .running (c.turn job)

/-- The machine before the first step. -/
def start (sources : Sources σ) (source : Source) (session : Session σ) : Stage σ :=
  match source.tokens sources.markup with
  | .error e => .ended (.error e, session)
  | .ok tokens =>
    .running ⟨source, tokens,
      ⟨source.dependency, .walk (.start [source.name] source.origin none) (Node.ofTokens tokens)⟩, [], session⟩

end Assembly

namespace Stage

/-- One step, if the end has not been reached. -/
def advance (sources : Sources σ) : Stage σ → Stage σ
  | running c => c.step sources
  | ended e => ended e

/-- The machine comes to an end after finitely many steps. -/
def Comes (sources : Sources σ) (s : Stage σ) (e : Compiled σ) : Prop := ∃ n, (advance sources)^[n] s = .ended e

variable {sources : Sources σ} {s : Stage σ} {e : Compiled σ}

theorem Comes.ended (sources : Sources σ) (e : Compiled σ) : Comes sources (.ended e) e := ⟨0, rfl⟩

theorem Comes.of_step {c : Assembly σ} (h : Comes sources (c.step sources) e) : Comes sources (.running c) e := by
  obtain ⟨n, hn⟩ := h
  exact ⟨n + 1, hn⟩

end Stage

/-! ## Loads and what follows them -/

/-- What compiling comes to by some load, and by what follows it. -/
def Load.settle (x : Load σ α) (k : α → Session σ → Compiled σ) (s : Session σ) : Compiled σ :=
  match x.run.run s with
  | (.ok a, s) => k a s
  | (.error e, s) => (.error e, s)

section Settle

variable {x : Load σ α} {f : α → Load σ β} {k : β → Session σ → Compiled σ} {s s' : Session σ}

theorem Load.settle_of_ok {k : α → Session σ → Compiled σ} {a : α} (h : x.run.run s = (.ok a, s')) :
    x.settle k s = k a s' := by
  unfold settle
  rw [h]

theorem Load.settle_of_error {k : α → Session σ → Compiled σ} {e : Error} (h : x.run.run s = (.error e, s')) :
    x.settle k s = (.error e, s') := by
  unfold settle
  rw [h]

theorem Load.settle_bind : (x >>= f).settle k s = x.settle (fun a s => (f a).settle k s) s := by
  rcases h : x.run.run s with ⟨r, s'⟩
  cases r with
  | ok a =>
    rw [settle_of_ok h]
    unfold settle
    rw [run_bind_of_ok h]
  | error e => rw [settle_of_error h, settle_of_error (run_bind_of_error h)]

/-- A load whose outcome is what compiling comes to. -/
theorem Load.settle_eq_run (x : Load σ Template) (s : Session σ) :
    x.settle (fun t s => (.ok t, s)) s = x.run.run s := by
  rcases h : x.run.run s with ⟨r, s'⟩
  cases r with
  | ok a => exact settle_of_ok h
  | error e => exact settle_of_error h

end Settle

theorem Assembly.perform_comes {sources : Sources σ} {c : Assembly σ} {x : Load σ α} {k : α → Assembly σ → Stage σ}
    {k' : α → Session σ → Compiled σ}
    (h : ∀ a s, x.run.run c.session = (.ok a, s) → (k a { c with session := s }).Comes sources (k' a s)) :
    (c.perform x k).Comes sources (x.settle k' c.session) := by
  rcases hx : x.run.run c.session with ⟨r, s⟩
  unfold perform
  rw [hx]
  cases r with
  | ok a =>
    rw [Load.settle_of_ok hx]
    exact h a s hx
  | error e =>
    rw [Load.settle_of_error hx]
    exact .ended sources _

/-! ## Nodes that are taken up -/

/-- The block that a call of the parent's block stands for if the search has come to this ancestor. -/
def BlockName.called (name : BlockName) (found : Option Layer) : Option Block :=
  match name with
  | .named _ => found.bind fun layer => layer.block? name
  | .anonymous _ => none

section Nodes

variable {l : Lineage}

/-- Without a parent, its block cannot be called. -/
theorem runFrom_parentBlock_of_isNone (ancestor : Ancestry σ) (name : BlockName) (line : Nat) (h : l.parent.isNone) :
    (parentBlock ancestor name line).runFrom l =
      throw (.superWithoutParent ⟨l.origin, line⟩ name.describe) := by
  unfold parentBlock
  simp only [Work.runFrom_bind, Work.runFrom_own, pure_bind, h, ↓reduceIte]
  cases name <;> rfl

/-- A call of the parent's block is a search for it. -/
theorem runFrom_parentBlock_of_isSome (ancestor : Ancestry σ) (name : BlockName) (line : Nat) (h : l.parent.isSome) :
    (parentBlock ancestor name line).runFrom l =
      (ancestor name.sought).runFrom l >>= fun r => pure (name.called r.1, r.2) := by
  have hnone : l.parent.isNone = false := by rw [Option.isNone_eq_false_iff]; exact h
  unfold parentBlock
  simp only [Work.runFrom_bind, Work.runFrom_own, pure_bind, hnone, Bool.false_eq_true, ↓reduceIte]
  cases name <;> simp only [Work.runFrom_bind] <;> rfl

namespace Draft

variable {d d' : Draft} {node : Node}

theorem add_superBlock (ancestor : Ancestry σ) (hkind : node.kind = .directive .superBlock)
    (hparent : d.lineage.parent.isSome) :
    d.add ancestor node = (ancestor d.name.sought).runFrom d.lineage >>= fun r => pure
      ({ d with lineage := r.2 }.push (.super node.line ((d.name.called r.1).elim [] Block.instructions))) := by
  unfold add
  rw [hkind]
  dsimp only
  rw [runFrom_parentBlock_of_isSome ancestor _ _ hparent, bind_assoc]
  rfl

/-- Without a search it does not matter how ancestors are found. -/
theorem add_eq_of_not_search (f g : Ancestry σ)
    (h : ¬(node.kind = .directive .superBlock ∧ d.lineage.parent.isSome)) : d.add f node = d.add g node := by
  obtain ⟨kind, line⟩ := node
  cases kind with
  | text | expression | escapedExpression | statement | comment => rfl
  | directive directive =>
    cases directive with
    | inherits | openBlock | closeBlock => rfl
    | superBlock =>
      have hp : d.lineage.parent.isNone := by simpa using h
      unfold add
      dsimp only
      rw [runFrom_parentBlock_of_isNone f _ _ hp, runFrom_parentBlock_of_isNone g _ _ hp]

/-- With the ancestor at hand, a node leaves the lineage as it is, or it names another parent and drops all
ancestors. -/
theorem lineage_add_return {found : Option Layer} {s s' : Session σ}
    (h : (d.add (fun _ => return found) node).run.run s = (.ok d', s')) : d'.lineage =
      node.parent?.elim d.lineage fun p => ⟨d.lineage.chain, d.lineage.origin, some p, []⟩ := by
  obtain ⟨kind, line⟩ := node
  cases kind with
  | text | expression | escapedExpression | statement | comment => cases h; rfl
  | directive directive =>
    cases directive with
    | inherits name =>
      have hkind : (Node.mk (.directive (.inherits name)) line).kind = .directive (.inherits name) := rfl
      rw [(ensures_add_inherits (fun _ => return found) d hkind s).2 d' (congrArg Prod.fst h)]
      rfl
    | openBlock name =>
      unfold add at h
      dsimp only at h
      split at h <;> cases h <;> rfl
    | closeBlock => cases h; rfl
    | superBlock =>
      by_cases hp : d.lineage.parent.isSome
      · rw [add_superBlock _ rfl hp] at h
        cases h
        rfl
      · unfold add at h
        dsimp only at h
        rw [runFrom_parentBlock_of_isNone _ _ _ (by simpa using hp)] at h
        cases h

end Draft

/-- What a job becomes when it goes on. -/
inductive Job.Proceeds : Job → Job → Prop
  | walk {d d' : Draft} {node : Node} {nodes : List Node} :
    d'.lineage = (node.parent?.elim d.lineage fun p => ⟨d.lineage.chain, d.lineage.origin, some p, []⟩) →
      Proceeds (.walk d (node :: nodes)) (.walk d' nodes)
  | order (set : BlockSet) (l : Lineage) (names : List BlockName) : Proceeds (.order set l) (.fill set l names [])
  | fill (set : BlockSet) (l : Lineage) (name : BlockName) (names : List BlockName) (filled : List (List Located))
    (part : List Located) : Proceeds (.fill set l (name :: names) filled) (.fill set l names (filled ++ [part]))

/-- Unless it is over, a job does nothing else. -/
theorem Job.proceed_cases {job job' : Job} {found : Option Layer} {s s' : Session σ} (hover : job.isOver = false)
    (h : (job.proceed found).run.run s = (.ok job', s')) : job.Proceeds job' := by
  cases job with
  | walk d nodes =>
    cases nodes with
    | nil => cases hover
    | cons node nodes =>
      obtain ⟨d', s₁, hadd, h⟩ := of_run_bind_eq_ok h
      cases h
      exact .walk (Draft.lineage_add_return hadd)
  | order set l =>
    simp only [proceed] at h
    split at h
    · obtain ⟨_, s₁, -, h⟩ := of_run_bind_eq_ok h
      cases h
      exact .order ..
    · cases h
      exact .order ..
  | fill set l names filled =>
    cases names with
    | nil => cases hover
    | cons name names =>
      cases h
      exact .fill ..

end Nodes

/-! ## Searching -/

namespace Job

variable {job : Job} {l l' : Lineage}

@[simp] theorem lineage_withLineage : (job.withLineage l).lineage = l := by cases job <;> rfl

@[simp] theorem withLineage_lineage : job.withLineage job.lineage = job := by cases job <;> rfl

@[simp] theorem withLineage_withLineage : (job.withLineage l).withLineage l' = job.withLineage l' := by
  cases job <;> rfl

theorem seeks?_withLineage (h : l.parent = job.lineage.parent) : (job.withLineage l).seeks? = job.seeks? := by
  cases job with
  | walk d nodes =>
    cases nodes with
    | nil => rfl
    | cons node nodes =>
      have h : l.parent = d.lineage.parent := h
      simp only [withLineage, seeks?, h]
  | order => rfl
  | fill set l names filled => cases names <;> rfl

/-- A search belongs to a job that is not over. -/
theorem isOver_of_seeks? {stops : Layer → Bool} (h : job.seeks? = some stops) : job.isOver = false := by
  unfold isOver
  split
  · cases h
  · cases h
  · rfl

end Job

theorem Lineage.length_chain_le (l : Lineage) : l.chain.length ≤ l.names.length := by
  rw [names, List.length_append]
  exact Nat.le_add_right ..

/-- The lineage of the same template with the same parent. -/
structure Lineage.Kin (l l' : Lineage) : Prop where
  chain : l'.chain = l.chain
  origin : l'.origin = l.origin
  parent : l'.parent = l.parent

namespace Assembly

variable {sources : Sources σ} {c : Assembly σ} {stops : Layer → Bool}

/-- The lineage of the active template has been read further. -/
def resume (c : Assembly σ) (l : Lineage) (session : Session σ) : Assembly σ :=
  { c with active := { c.active with job := c.active.job.withLineage l }, session }

@[simp] theorem lineage_resume (c : Assembly σ) (l : Lineage) (s : Session σ) :
    (c.resume l s).active.job.lineage = l := Job.lineage_withLineage

@[simp] theorem resume_resume (c : Assembly σ) (l l' : Lineage) (s s' : Session σ) :
    (c.resume l s).resume l' s' = c.resume l' s' := by
  simp only [resume, Job.withLineage_withLineage]

@[simp] theorem resume_lineage (c : Assembly σ) : c.resume c.active.job.lineage c.session = c := by
  simp only [resume, Job.withLineage_lineage]

/-- The job goes on unless it is over or asks for a parent. -/
theorem step_of_asks?_eq_none (hover : c.active.job.isOver = false) (h : c.active.job.asks? = none) :
    c.step sources = c.perform (c.active.job.proceed c.active.job.found?) fun job c => .running (c.turn job) := by
  unfold step
  split
  · next hjob => rw [hjob] at hover; cases hover
  · next hjob => rw [hjob] at hover; cases hover
  · rw [h]

/-- A job that searches for nothing goes on. -/
theorem step_of_seeks?_eq_none (hover : c.active.job.isOver = false) (h : c.active.job.seeks? = none) :
    c.step sources = c.perform (c.active.job.proceed none) fun job c => .running (c.turn job) := by
  have hfound : c.active.job.found? = none := by rw [Job.found?, h, Option.bind_none]
  rw [step_of_asks?_eq_none hover, hfound]
  rw [Job.asks?, h]
  rfl

/-- A search that is over: the job goes on. -/
theorem step_of_found (h : c.active.job.seeks? = some stops)
    (hn : c.active.job.lineage.find? stops = none → c.active.job.lineage.next? = none) :
    c.step sources = c.perform (c.active.job.proceed (c.active.job.lineage.find? stops)) fun job c =>
      .running (c.turn job) := by
  have hfound : c.active.job.found? = c.active.job.lineage.find? stops := by rw [Job.found?, h, Option.bind_some]
  rw [step_of_asks?_eq_none (Job.isOver_of_seeks? h), hfound]
  unfold Job.asks?
  rw [hfound]
  split
  · next hnone => exact hn (Option.isNone_iff_eq_none.mp hnone.2)
  · rfl

/-- A search that goes on: the next parent is read. -/
theorem step_of_not_found {origin : String} {p : Parent} (h : c.active.job.seeks? = some stops)
    (hf : c.active.job.lineage.find? stops = none) (hn : c.active.job.lineage.next? = some (origin, p)) :
    c.step sources = c.read sources origin p := by
  have hasks : c.active.job.asks? = some (origin, p) := by
    rw [Job.asks?, Job.found?, h, Option.bind_some, hf, if_pos ⟨rfl, rfl⟩, hn]
  unfold step
  split
  · next hjob => rw [hjob] at h; cases h
  · next hjob => rw [hjob] at h; cases h
  · rw [hasks]

/-- What a step can lead to. -/
inductive Steps (sources : Sources σ) (c : Assembly σ) : Assembly σ → Prop
  | leave {d : Draft} : c.active.job = .walk d [] → Steps sources c (c.leave d)
  | call {origin : String} {p : Parent} {source : Source} {tokens : List Token} {session : Session σ} :
    c.active.job.asks? = some (origin, p) → c.active.job.lineage.refusal? origin p = none →
      (sources.source p.name).run.run c.session = (.ok source, session) → source.tokens sources.markup = .ok tokens →
        Steps sources c (({ c with session } : Assembly σ).call source.dependency
          (.start (c.active.job.lineage.names ++ [p.name]) source.origin none) (Node.ofTokens tokens))
  | proceed {job : Job} (session : Session σ) : c.active.job.asks? = none → c.active.job.Proceeds job →
    Steps sources c (({ c with session } : Assembly σ).turn job)

theorem perform_eq_running {x : Load σ α} {k : α → Assembly σ → Stage σ} {c' : Assembly σ}
    (h : c.perform x k = .running c') :
    ∃ a session, x.run.run c.session = (.ok a, session) ∧ k a { c with session } = .running c' := by
  unfold perform at h
  split at h
  · next a session hx => exact ⟨a, session, hx, h⟩
  · cases h

theorem perform_eq_ended {x : Load σ α} {k : α → Assembly σ → Stage σ} {t : Template} {session : Session σ}
    (h : c.perform x k = .ended (.ok t, session)) : ∃ a c', k a c' = .ended (.ok t, session) := by
  unfold perform at h
  split at h
  · exact ⟨_, _, h⟩
  · cases h

/-- The machine takes no other steps. -/
theorem step_cases {c' : Assembly σ} (h : c.step sources = .running c') : c.Steps sources c' := by
  unfold step at h
  split at h
  · next d hjob =>
    cases h
    exact .leave hjob
  · cases h
  · next hwalk hfill =>
    have hover : c.active.job.isOver = false := by
      unfold Job.isOver
      split
      · next d hjob => exact absurd hjob (hwalk d)
      · next set l filled hjob => exact absurd hjob (hfill set l filled)
      · rfl
    split at h
    · next origin p hasks =>
      unfold read at h
      dsimp only at h
      split at h
      · cases h
      · next hrefusal =>
        obtain ⟨source, session, hsource, h⟩ := perform_eq_running h
        obtain ⟨tokens, session', htokens, h⟩ := perform_eq_running h
        obtain rfl : session = session' := congrArg Prod.snd htokens
        cases h
        exact .call hasks hrefusal hsource (congrArg Prod.fst htokens)
    · next hasks =>
      obtain ⟨job, session, hproceed, h⟩ := perform_eq_running h
      cases h
      exact .proceed session hasks (Job.proceed_cases hover hproceed)

/-- Compiling succeeds only where all places are filled. -/
theorem of_step_eq_ended {t : Template} {session : Session σ} (h : c.step sources = .ended (.ok t, session)) :
    ∃ set l filled, c.active.job = .fill set l [] filled ∧ t.tokens = c.tokens ∧
      t.parents = l.ancestors.map Ancestor.dependency := by
  unfold step at h
  split at h
  · cases h
  · next set l filled hjob =>
    have hfinish := congrArg Prod.fst (Stage.ended.inj h)
    simp only [finish] at hfinish
    rcases hlink : Program.link c.source.origin filled.flatten with e | program
    · rw [hlink] at hfinish
      cases hfinish
    · rw [hlink] at hfinish
      cases hfinish
      exact ⟨set, l, filled, hjob, rfl, rfl⟩
  · split at h
    · unfold read at h
      dsimp only at h
      split at h
      · cases h
      · obtain ⟨_, _, h⟩ := perform_eq_ended h
        obtain ⟨_, _, h⟩ := perform_eq_ended h
        cases h
    · obtain ⟨_, _, h⟩ := perform_eq_ended h
      cases h

end Assembly

/-! ## Runs -/

namespace Stage

variable {sources : Sources σ} {s : Stage σ} {e : Compiled σ} {c : Assembly σ} {n : Nat}

/-- What every step keeps holds as long as the machine runs. -/
theorem invariant {I : Assembly σ → Prop} (hI : ∀ c c', I c → c.Steps sources c' → I c')
    (hs : ∀ c, s = .running c → I c) (h : (advance sources)^[n] s = .running c) : I c := by
  induction n generalizing c with
  | zero => exact hs c h
  | succ n ih =>
    rw [Function.iterate_succ_apply'] at h
    rcases hn : (advance sources)^[n] s with c₁ | e
    · rw [hn] at h
      exact hI c₁ c (ih hn) (Assembly.step_cases h)
    · rw [hn] at h
      cases h

/-- A machine that comes to an end has a last step. -/
theorem Comes.exists_last (h : s.Comes sources e) :
    s = .ended e ∨ ∃ n c, (advance sources)^[n] s = .running c ∧ c.step sources = .ended e := by
  obtain ⟨n, hn⟩ := h
  induction n with
  | zero => exact .inl hn
  | succ n ih =>
    rw [Function.iterate_succ_apply'] at hn
    rcases hs : (advance sources)^[n] s with c | e'
    · rw [hs] at hn
      exact .inr ⟨n, c, hs, hn⟩
    · rw [hs] at hn
      cases hn
      exact ih hs

end Stage

/-- The machine goes through all searches that so many steps are enough for. -/
def Searches (sources : Sources σ) (steps : Nat) : Prop :=
  ∀ (c : Assembly σ) (stops : Layer → Bool) (k : Option Layer × Lineage → Session σ → Compiled σ),
    c.active.job.seeks? = some stops → c.active.job.lineage.names.length ≤ maxExtends →
    maxExtends < steps + c.active.job.lineage.names.length →
    (∀ l s, c.active.job.lineage.Kin l → l.names.length ≤ maxExtends → (l.find? stops = none → l.next? = none) →
      (Stage.running (c.resume l s)).Comes sources (k (l.find? stops, l) s)) →
    (Stage.running c).Comes sources (((nearest sources steps stops).runFrom c.active.job.lineage).settle k c.session)

section Searches

variable {sources : Sources σ} {steps : Nat}

theorem Assembly.perform_map {c : Assembly σ} (x : Load σ α) (f : α → β) (k : β → Assembly σ → Stage σ) :
    c.perform (do return f (← x)) k = c.perform x fun a => k (f a) := by
  rcases hx : x.run.run c.session with ⟨r, s⟩
  unfold perform
  cases r with
  | ok a => rw [hx, run_bind_of_ok hx]; rfl
  | error e => rw [hx, run_bind_of_error hx]

/-- Then it goes through the nodes of a template too. -/
theorem Searches.walks (h : Searches sources steps) (nodes : List Node) (c : Assembly σ) (d : Draft)
    (hle : d.lineage.names.length ≤ maxExtends) (hsteps : maxExtends < steps + d.lineage.chain.length)
    (k : Draft → Session σ → Compiled σ)
    (hk : ∀ d' s, d'.lineage.chain = d.lineage.chain → d'.lineage.names.length ≤ maxExtends →
      (Stage.running { c.turn (.walk d' []) with session := s }).Comes sources (k d' s)) :
    (Stage.running (c.turn (.walk d nodes))).Comes sources
      ((nodes.foldlM (Draft.add (nearest sources steps)) d).settle k c.session) := by
  induction nodes generalizing c d with
  | nil => exact hk d c.session rfl hle
  | cons node nodes ih =>
    -- once the ancestor is at hand, the node is taken up and the others follow
    have hproceed (l : Lineage) (found : Option Layer) (s : Session σ) (hkin : d.lineage.Kin l)
        (hl : l.names.length ≤ maxExtends) :
        (((c.turn (.walk d (node :: nodes))).resume l s).perform
          (Job.proceed found (.walk { d with lineage := l } (node :: nodes))) fun job c =>
            .running (c.turn job)).Comes sources
          ((Draft.add (fun _ => return found) { d with lineage := l } node >>=
            nodes.foldlM (Draft.add (nearest sources steps))).settle k s) := by
      rw [Load.settle_bind, Job.proceed, Assembly.perform_map]
      refine Assembly.perform_comes fun d' s' hadd => ?_
      have hd' : d'.lineage.chain = d.lineage.chain ∧ d'.lineage.names.length ≤ maxExtends := by
        rw [Draft.lineage_add_return hadd]
        rcases node.parent? with _ | p
        · exact ⟨hkin.chain, hl⟩
        · exact ⟨hkin.chain, le_trans (by simp [Lineage.names]) hl⟩
      refine ih { c with session := s' } d' hd'.2 (by rwa [hd'.1]) fun d'' s'' hchain hnames => ?_
      exact hk d'' s'' (hchain.trans hd'.1) hnames
    rw [List.foldlM_cons]
    by_cases hsearch : node.kind = .directive .superBlock ∧ d.lineage.parent.isSome
    · have hseeks : (c.turn (.walk d (node :: nodes))).active.job.seeks? = some d.name.sought := if_pos hsearch
      rw [Draft.add_superBlock _ hsearch.1 hsearch.2, bind_assoc, Load.settle_bind]
      have hlength := d.lineage.length_chain_le
      refine h (c.turn (.walk d (node :: nodes))) _ _ hseeks hle (by change _ < _ + d.lineage.names.length; omega) ?_
      intro l s hkin hl hfound
      refine .of_step ?_
      have hparent : l.parent = d.lineage.parent := hkin.parent
      rw [Assembly.step_of_found (c := (c.turn (.walk d (node :: nodes))).resume l s)
        ((Job.seeks?_withLineage hkin.parent).trans hseeks) hfound]
      have := hproceed l (l.find? d.name.sought) s hkin hl
      rwa [Draft.add_superBlock _ hsearch.1 (by rw [hparent]; exact hsearch.2)] at this
    · have hseeks : (c.turn (.walk d (node :: nodes))).active.job.seeks? = none := if_neg hsearch
      refine .of_step ?_
      have := hproceed d.lineage none c.session ⟨rfl, rfl, rfl⟩ hle
      rw [Draft.add_eq_of_not_search _ (nearest sources steps) hsearch] at this
      rwa [Assembly.step_of_seeks?_eq_none rfl hseeks]

/-- A parent that is read goes behind the lineage, and the search goes on. -/
theorem runFrom_readParent (sources : Sources σ) (steps : Nat) (stops : Layer → Bool) (l : Lineage) (p : Parent) :
    (readParent sources steps stops l p).runFrom l = sources.source p.name >>= fun source =>
      Load.ofExcept (source.tokens sources.markup) >>= fun tokens =>
        Draft.build (nearest sources steps) (l.names ++ [p.name]) source.origin (Node.ofTokens tokens) >>= fun d =>
          (nearest sources steps stops).runFrom (l.extend (⟨source.dependency, d.layer⟩ :: d.lineage.ancestors)) := by
  simp only [readParent, Work.runFrom_bind, Work.runFrom_ofLoad, Work.runFrom_update, bind_assoc, pure_bind]

/-- The names of a lineage with an ancestor behind it that is built in a chain with these names. -/
theorem Lineage.length_names_extend {l behind : Lineage} {a : Ancestor} {name : String}
    (h : behind.chain = l.names ++ [name]) : (l.extend (a :: behind.ancestors)).names.length = behind.names.length := by
  unfold names at h ⊢
  rw [h]
  simp only [extend, List.length_append, List.length_map, List.length_cons, List.length_nil]
  omega

/-- Then it goes through a parent that is read, and goes on searching behind it. -/
theorem Searches.reads (h : Searches sources steps) {c : Assembly σ} {stops : Layer → Bool}
    {k : Option Layer × Lineage → Session σ → Compiled σ} (hseeks : c.active.job.seeks? = some stops)
    (hlt : c.active.job.lineage.names.length < maxExtends)
    (hsteps : maxExtends < steps + 1 + c.active.job.lineage.names.length)
    (hk : ∀ l s, c.active.job.lineage.Kin l → l.names.length ≤ maxExtends → (l.find? stops = none → l.next? = none) →
      (Stage.running (c.resume l s)).Comes sources (k (l.find? stops, l) s)) (p : Parent) :
    (c.perform (sources.source p.name) fun source c' =>
      c'.perform (Load.ofExcept (source.tokens sources.markup)) fun tokens c' =>
        .running (c'.call source.dependency (.start (c.active.job.lineage.names ++ [p.name]) source.origin none)
          (Node.ofTokens tokens))).Comes sources
      (((readParent sources steps stops c.active.job.lineage p).runFrom c.active.job.lineage).settle k c.session) := by
  rw [runFrom_readParent, Load.settle_bind]
  refine Assembly.perform_comes fun source s _ => ?_
  rw [Load.settle_bind]
  refine Assembly.perform_comes fun tokens s₁ _ => ?_
  rw [Load.settle_bind]
  -- the parent is built in a chain that has one name more
  have hchain : (c.active.job.lineage.names ++ [p.name]).length = c.active.job.lineage.names.length + 1 :=
    List.length_append
  let start := Draft.start (c.active.job.lineage.names ++ [p.name]) source.origin none
  have hstart : start.lineage.names.length ≤ maxExtends := by
    change (c.active.job.lineage.names ++ [p.name] ++ []).length ≤ _
    rw [List.append_nil, hchain]
    exact hlt
  refine h.walks (Node.ofTokens tokens) (({ c with session := s₁ } : Assembly σ).call source.dependency start
    (Node.ofTokens tokens)) start hstart ?_ _ fun d s₂ hd hdle => .of_step ?_
  · change _ < _ + (c.active.job.lineage.names ++ [p.name]).length
    omega
  -- the search goes on in the lineage that has the parent behind it
  let l := c.active.job.lineage.extend (⟨source.dependency, d.layer⟩ :: d.lineage.ancestors)
  have hextend : l.names.length = d.lineage.names.length := Lineage.length_names_extend hd
  have hmore : (c.active.job.lineage.names ++ [p.name]).length ≤ d.lineage.names.length := by
    have := d.lineage.length_chain_le
    rwa [hd] at this
  have hparent : l.parent = c.active.job.lineage.parent := rfl
  have hrest := h (c.resume l s₂) stops k ((Job.seeks?_withLineage hparent).trans hseeks)
  rw [Assembly.lineage_resume] at hrest
  refine hrest (by rwa [hextend]) (by omega) fun l' s' hkin hl' hfound => ?_
  rw [Assembly.resume_resume]
  exact hk l' s' ⟨hkin.chain, hkin.origin, hkin.parent⟩ hl' hfound

/-- The machine goes through the search in every lineage, since no lineage has more names than steps are enough for. -/
theorem searches (sources : Sources σ) (steps : Nat) : Searches sources steps := by
  induction steps with
  | zero =>
    intro c stops k _ hle hsteps
    omega
  | succ steps ih =>
    intro c stops k hseeks hle hsteps hk
    unfold nearest
    rw [Work.runFrom_bind, Work.runFrom_own, pure_bind]
    -- the search is over at once
    have hover (hn : c.active.job.lineage.find? stops = none → c.active.job.lineage.next? = none) :
        (Stage.running c).Comes sources (k (c.active.job.lineage.find? stops, c.active.job.lineage) c.session) := by
      have := hk c.active.job.lineage c.session ⟨rfl, rfl, rfl⟩ hle hn
      rwa [Assembly.resume_lineage] at this
    rcases hf : c.active.job.lineage.find? stops with _ | layer
    · rcases hn : c.active.job.lineage.next? with _ | ⟨origin, p⟩
      · have := hover fun _ => hn
        rwa [hf] at this
      · refine .of_step ?_
        rw [Assembly.step_of_not_found hseeks hf hn, Assembly.read]
        dsimp only
        rcases hr : c.active.job.lineage.refusal? origin p with _ | e
        · exact ih.reads hseeks (Lineage.length_lt_of_refusal?_eq_none hr) hsteps hk p
        · exact .ended sources _
    · have := hover fun hnone => by rw [hf] at hnone; cases hnone
      rwa [hf] at this

end Searches

/-! ## Compiling -/

section Compile

variable {sources : Sources σ}

/-- What stands in a place that the template settles itself. -/
theorem BlockSet.runFrom_instructionsAt_of_settles {set : BlockSet} {name : BlockName} (h : set.layer.settles name)
    (l : Lineage) : (set.instructionsAt sources name).runFrom l =
      pure ((set.layer.block? name).elim [] Block.instructions, l) := by
  unfold instructionsAt block
  rw [if_pos h]
  rfl

/-- What stands in any other place has to be searched for. -/
theorem BlockSet.runFrom_instructionsAt_of_not_settles {set : BlockSet} {name : BlockName}
    (h : ¬set.layer.settles name) (l : Lineage) : (set.instructionsAt sources name).runFrom l =
      (ancestry sources fun layer => layer.settles name).runFrom l >>= fun r =>
        pure ((r.1.bind fun layer => layer.block? name).elim [] Block.instructions, r.2) := by
  unfold instructionsAt block
  rw [if_neg h]
  simp only [Work.runFrom_bind, Work.runFrom_pure, bind_assoc, pure_bind]

/-- The machine fills the places of a template. -/
theorem Assembly.fill_comes (sources : Sources σ) (set : BlockSet) (names : List BlockName) (c : Assembly σ)
    (l : Lineage) (filled : List (List Located)) (hle : l.names.length ≤ maxExtends)
    (k : List (List Located) × Lineage → Session σ → Compiled σ)
    (hk : ∀ parts l' s, (Stage.running { c.turn (.fill set l' [] (filled ++ parts)) with session := s }).Comes sources
      (k (parts, l') s)) :
    (Stage.running (c.turn (.fill set l names filled))).Comes sources
      (((names.mapM (set.instructionsAt sources)).runFrom l).settle k c.session) := by
  induction names generalizing c l filled k with
  | nil =>
    have := hk [] l c.session
    rwa [List.append_nil] at this
  | cons name names ih =>
    -- once the place is filled, the others follow
    have hrest (l' : Lineage) (s : Session σ) (hl' : l'.names.length ≤ maxExtends) (part : List Located) :
        (Stage.running { c.turn (.fill set l' names (filled ++ [part])) with session := s }).Comes sources
          (((names.mapM (set.instructionsAt sources)).runFrom l').settle (fun r => k (part :: r.1, r.2)) s) := by
      refine ih { c with session := s } l' _ hl' _ fun parts l'' s' => ?_
      have := hk (part :: parts) l'' s'
      rwa [List.append_cons] at this
    rw [List.mapM_cons, Work.runFrom_bind, Load.settle_bind]
    simp only [Work.runFrom_bind, Load.settle_bind]
    by_cases hsettles : set.layer.settles name
    · rw [BlockSet.runFrom_instructionsAt_of_settles hsettles]
      refine .of_step ?_
      have hseeks : (c.turn (.fill set l (name :: names) filled)).active.job.seeks? = none := if_pos hsettles
      rw [Assembly.step_of_seeks?_eq_none rfl hseeks]
      change (Assembly.perform _ (Job.proceed none (.fill set l (name :: names) filled)) _).Comes _ _
      rw [Job.proceed, if_pos hsettles]
      exact hrest l c.session hle ((set.layer.block? name).elim [] Block.instructions)
    · rw [BlockSet.runFrom_instructionsAt_of_not_settles hsettles, Load.settle_bind]
      have hseeks : (c.turn (.fill set l (name :: names) filled)).active.job.seeks? =
          some fun layer => layer.settles name := if_neg hsettles
      refine searches sources (maxExtends + 1) (c.turn (.fill set l (name :: names) filled)) _ _ hseeks hle
        (by omega) fun l' s hkin hl' hfound => .of_step ?_
      rw [Assembly.step_of_found (c := (c.turn (.fill set l (name :: names) filled)).resume l' s) hseeks hfound]
      change (Assembly.perform _ (Job.proceed _ (.fill set l' (name :: names) filled)) _).Comes _ _
      rw [Job.proceed, if_neg hsettles]
      exact hrest l' s hl' _

/-- The machine looks for the order of the blocks and then fills the places. -/
theorem Assembly.order_comes (sources : Sources σ) (c : Assembly σ) (set : BlockSet)
    (hle : set.lineage.names.length ≤ maxExtends) (k : List Located × Lineage → Session σ → Compiled σ)
    (hk : ∀ parts l s, (Stage.running { c.turn (.fill set l [] parts) with session := s }).Comes sources
      (k (parts.flatten, l) s)) :
    (Stage.running (c.turn (.order set set.lineage))).Comes sources
      (((set.instructions sources).runFrom set.lineage).settle k c.session) := by
  have hgather : set.instructions sources = set.order sources >>= set.gather sources := rfl
  have horder : set.order sources = do
      return ((← ancestry sources fun _ => false).getD set.layer).order := rfl
  simp only [hgather, horder, Work.runFrom_bind, bind_assoc, pure_bind, Load.settle_bind]
  refine searches sources (maxExtends + 1) (c.turn (.order set set.lineage)) _ _ rfl hle (by omega)
    fun l s _ hl hfound => .of_step ?_
  have hseeks : ((c.turn (.order set set.lineage)).resume l s).active.job.seeks? = some fun _ => false := rfl
  rw [step_of_found hseeks hfound]
  change (perform _ (Job.proceed (l.find? fun _ => false) (.order set l)) _).Comes _ _
  let order := ((l.find? fun _ => false).getD set.layer).order
  have hfill (s : Session σ) : (Stage.running { c.turn (.fill set l order []) with session := s }).Comes sources
      (((order.mapM (set.instructionsAt sources)).runFrom l).settle (fun r => k (r.1.flatten, r.2)) s) :=
    fill_comes sources set order { c with session := s } l [] hl _ fun parts l s => hk parts l s
  by_cases hparent : set.lineage.parent.isSome
  · simp only [Job.proceed, BlockSet.gather, if_pos hparent, perform_map, Work.runFrom_bind, Work.runFrom_ofLoad,
      bind_assoc, pure_bind, Load.settle_bind]
    exact perform_comes fun _ s _ => hfill s
  · simp only [Job.proceed, BlockSet.gather, if_neg hparent, Work.runFrom_bind, Load.settle_bind]
    exact hfill s

/-- **The machine comes to what compiling comes to.** -/
theorem Assembly.start_comes (sources : Sources σ) (source : Source) (session : Session σ) :
    (start sources source session).Comes sources ((Template.compile sources source).run.run session) := by
  rw [← Load.settle_eq_run]
  unfold Template.compile start
  rw [Load.settle_bind]
  rcases htokens : source.tokens sources.markup with e | tokens
  · exact .ended sources _
  · rw [Load.settle_of_ok (Load.run_ofExcept session rfl)]
    unfold BlockSet.build
    rw [bind_assoc, Load.settle_bind]
    refine (searches sources (maxExtends + 1)).walks (Node.ofTokens tokens) ⟨source, tokens,
      ⟨source.dependency, .walk (.start [source.name] source.origin none) (Node.ofTokens tokens)⟩, [], session⟩
      (.start [source.name] source.origin none) ?_ (by omega) _ fun d s _ hle => .of_step ?_
    · exact Nat.le_of_ble_eq_true rfl
    · rw [pure_bind, Load.settle_bind]
      refine order_comes sources ⟨source, tokens, _, [], s⟩ ⟨d.lineage, d.blocks⟩ hle _ fun parts l s => .of_step ?_
      rw [Load.settle_eq_run]
      refine ⟨0, ?_⟩
      change Stage.ended (_, _) = _
      dsimp only [turn]
      rcases Program.link source.origin parts.flatten with e | program <;> rfl

end Compile

end Stencil
