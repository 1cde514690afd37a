import Stencil.Proofs.Blame
import Stencil.Proofs.Visibility

/-!
# What a run leaves of the locals

A run may bind locals in three ways: by assignments, by loops, and in the contexts of what it includes. Only the first
one lasts. Work `Spares` something of its state if it is as before wherever the work succeeds; on the way it may have
been something else. A loop spares all locals that its body spares, and its own variables, whatever is done to them
(`Work.Spares.restoring`), so nested code spares the locals that it does not assign (`Code.interpret_spares`).

The main statement is `local_eq_of_not_assigned`.
-/

namespace Stencil

open Script (Expr LoopVars Statement)

variable {σ α β γ : Type}

/-! ## What work spares -/

namespace Work

variable {κ δ : Type} {f : κ → δ}

/-- Where the work succeeds, something of its state is as before. -/
def Spares (f : κ → δ) (x : Work κ σ α) : Prop :=
  ∀ k session a k' session', x.run.run (k, session) = (.ok a, k', session') → f k' = f k

theorem Spares.pure (a : α) : Spares f (pure a : Work κ σ α) := by
  rintro k session _ _ _ ⟨⟩
  rfl

theorem Spares.throw (e : Error) : Spares f (throw e : Work κ σ α) := nofun

theorem Spares.own : Spares f (own : Work κ σ κ) := by
  rintro k session _ _ _ ⟨⟩
  rfl

theorem Spares.update {g : κ → κ} (h : ∀ k, f (g k) = f k) : Spares f (update g : Work κ σ Unit) := by
  rintro k session _ _ _ ⟨⟩
  exact h k

theorem Spares.ofLoad (x : Load σ α) : Spares f (ofLoad x : Work κ σ α) := by
  intro k session a k' session' hrun
  rw [(of_run_ofLoad hrun).1]

theorem Spares.bind {x : Work κ σ α} {g : α → Work κ σ β} (hx : Spares f x) (hg : ∀ a, Spares f (g a)) :
    Spares f (x >>= g) := by
  intro k session b k' session' hrun
  obtain ⟨a, ⟨k₁, session₁⟩, hxrun, hgrun⟩ := of_run_bind_eq_ok hrun
  exact (hg a _ _ _ _ _ hgrun).trans (hx _ _ _ _ _ hxrun)

theorem Spares.mapM {g : γ → Work κ σ α} (hg : ∀ c, Spares f (g c)) (cs : List γ) : Spares f (cs.mapM g) := by
  induction cs with
  | nil =>
    rw [List.mapM_nil]
    exact .pure []
  | cons c cs ih =>
    rw [List.mapM_cons]
    exact (hg c).bind fun a => ih.bind fun as => .pure (a :: as)

theorem Spares.forM {g : γ → Work κ σ Unit} {cs : List γ} (hg : ∀ c ∈ cs, Spares f (g c)) : Spares f (cs.forM g) := by
  induction cs with
  | nil => exact .pure ()
  | cons c cs ih =>
    obtain ⟨hc, hcs⟩ := List.forall_mem_cons.mp hg
    exact hc.bind fun _ => ih hcs

end Work

/-! ## Loops -/

/-- What the local of a name is bound to. -/
def Context.local? (name : String) (ctx : Context) : Option Value := Bindings.get? ctx.locals name

/-- Work after which locals are given back spares them, whatever it does to them. -/
theorem Work.Spares.restoring {name : String} {names : List String} {x : Run σ Unit} {next : Run σ α}
    (hx : name ∉ names → Spares (Context.local? name) x) (hnext : Spares (Context.local? name) next) :
    Spares (Context.local? name) (do
      let before ← Work.own
      x
      Work.update (·.restore (before.saved names))
      next) := by
  intro ctx session a ctx' session' hrun
  obtain ⟨before, before', hown, hrun⟩ := of_run_bind_eq_ok hrun
  cases hown
  obtain ⟨u, ⟨inner, session₁⟩, hxrun, hrun⟩ := of_run_bind_eq_ok hrun
  obtain ⟨u', restored, hrestore, hrun⟩ := of_run_bind_eq_ok hrun
  cases hrestore
  rw [hnext _ _ _ _ _ hrun, Context.local?, Context.get?_restore]
  split
  · rfl
  · next hname => exact hx hname _ _ _ _ _ hxrun

/-- The passes of a loop bind its variables. -/
theorem Script.LoopVars.mem_names_of_passes {vars : LoopVars} {v : Value} {passes : List (List (String × Value))}
    (h : vars.passes v = .ok passes) {pass : List (String × Value)} (hpass : pass ∈ passes) {entry : String × Value}
    (hentry : entry ∈ pass) : entry.1 ∈ vars.names := by
  unfold LoopVars.passes at h
  split at h
  case h_6 => cases h
  all_goals obtain rfl := Except.ok.inj h
  case h_1 => cases hpass
  all_goals
    simp only [List.mem_map, List.mem_mapIdx] at hpass
    grind [LoopVars.names]

theorem Context.local?_bind {name : String} {pass : List (String × Value)} (h : ∀ entry ∈ pass, entry.1 ≠ name)
    (ctx : Context) : (ctx.bind pass).local? name = ctx.local? name := by
  induction pass generalizing ctx with
  | nil => rfl
  | cons entry pass ih =>
    obtain ⟨hentry, hpass⟩ := List.forall_mem_cons.mp h
    exact (ih hpass (ctx.setLocal entry.1 entry.2)).trans (Bindings.get?_set_of_ne hentry entry.2 ctx.locals)

/-! ## Nested code -/

section Interpret

variable {name : String}

theorem evaluateAt_spares (position : Position) (e : Expr) :
    Work.Spares (Context.local? name) (evaluateAt position e : Run σ Value) := by
  refine Work.Spares.own.bind fun ctx => ?_
  split
  · exact .pure _
  · exact .throw _

/-- Nested code spares the locals that none of its operations assigns. -/
theorem Code.interpret_spares {position : Nat → Position} {inclusion : Inclusion σ}
    (hi : ∀ p other extra, Work.Spares (Context.local? name) (inclusion p other extra)) (c : Code)
    (hc : ∀ op ∈ c.ops, ∀ e, op.op ≠ .assign name e) :
    Work.Spares (Context.local? name) (c.interpret position inclusion) := by
  have hwrite (text : Context → String) :
      Work.Spares (Context.local? name) (Work.update fun ctx => ctx.write (text ctx) : Run σ Unit) :=
    .update fun _ => rfl
  induction c with
  | done => exact .pure ()
  | literal place text next ih =>
    simp only [ops, List.forall_mem_cons] at hc
    exact (hwrite _).bind fun _ => ih hc.2
  | emit place e escaped next ih =>
    simp only [ops, List.forall_mem_cons] at hc
    exact (evaluateAt_spares _ e).bind fun v => (hwrite _).bind fun _ => ih hc.2
  | assign place target e next ih =>
    simp only [ops, List.forall_mem_cons] at hc
    have hne : target ≠ name := fun heq => hc.1 e (by rw [heq])
    refine (evaluateAt_spares _ e).bind fun v => (Work.Spares.update fun ctx => ?_).bind fun _ => ih hc.2
    exact Bindings.get?_set_of_ne hne v ctx.locals
  | includes place template extra next ih =>
    simp only [ops, List.forall_mem_cons] at hc
    refine (evaluateAt_spares _ template).bind fun v => ?_
    refine (Work.Spares.mapM (fun entry => ?_) extra).bind fun values => (hi _ _ _).bind fun _ => ih hc.2
    exact (evaluateAt_spares _ entry.2).bind fun v => .pure _
  | eval place e next ih =>
    simp only [ops, List.forall_mem_cons] at hc
    exact (evaluateAt_spares _ e).bind fun _ => ih hc.2
  | ifThen place test body next ihBody ih =>
    simp only [ops, List.forall_mem_cons, List.forall_mem_append] at hc
    refine (evaluateAt_spares _ test).bind fun v => ?_
    split
    · exact (ihBody hc.2.1).bind fun _ => ih hc.2.2
    · exact ih hc.2.2
  | ifElse place test body elsePlace alternative next ihBody ihAlternative ih =>
    simp only [ops, List.forall_mem_cons, List.forall_mem_append] at hc
    obtain ⟨-, hbody, -, halternative, hnext⟩ := hc
    refine (evaluateAt_spares _ test).bind fun v => ?_
    split
    · exact (ihBody hbody).bind fun _ => ih hnext
    · exact (ihAlternative halternative).bind fun _ => ih hnext
  | loop place vars iterable body endPlace next ihBody ih =>
    simp only [ops, List.forall_mem_cons, List.forall_mem_append] at hc
    obtain ⟨-, hbody, -, hnext⟩ := hc
    refine (evaluateAt_spares _ iterable).bind fun v => ?_
    rcases hpasses : vars.passes v with e | _ | ⟨pass, passes⟩
    · exact (Work.Spares.throw _).bind fun _ => ih hnext
    · exact ih hnext
    · refine .restoring (fun hname => .forM fun pass hpass => ?_) (ih hnext)
      -- the loop has other variables, so the local is bound by none of the passes
      have hbind : ∀ entry ∈ pass, entry.1 ≠ name := fun entry hentry heq =>
        hname (heq ▸ LoopVars.mem_names_of_passes hpasses hpass hentry)
      exact (Work.Spares.update (Context.local?_bind hbind)).bind fun _ => ihBody hbody

/-- An inclusion spares all locals of the context that it is asked for in. -/
theorem Template.inclusion_spares (loader : Loader σ) (levels : Nat) (position : Position) (other : String)
    (extra : Bindings Value) : Work.Spares (Context.local? name) (inclusion loader levels position other extra) := by
  cases levels with
  | zero => exact .throw _
  | succ levels =>
    refine (Work.Spares.ofLoad _).bind fun t => Work.Spares.own.bind fun ctx => ?_
    exact (Work.Spares.ofLoad _).bind fun output => .update fun _ => rfl

end Interpret

/-! ## Main result -/

/-- The name that an instruction assigns to. -/
def Located.target? (l : Located) : Option String :=
  match l.instruction with
  | .statement code =>
    match Statement.ofCode code with
    | .ok (.assign name _) => some name
    | _ => none
  | _ => none

/-- The names that the instructions of a program assign to. -/
def Program.targets (p : Program) : List String := p.instructions.filterMap Located.target?

theorem Program.mem_targets_of_assign {p : Program} {op : LinkedOp} (hop : op ∈ p.ops) {name : String} {e : Expr}
    (h : op.op = .assign name e) : name ∈ p.targets := by
  obtain ⟨l, hl, hplace, r, hread, hlinks⟩ := exists_comesFrom hop
  rw [h] at hlinks
  cases hlinks
  obtain ⟨code, hcode, hstatement⟩ := Placed.exists_of_read_statement hread
  have htarget : l.target? = some name := by
    rw [Located.target?, hcode]
    simp [hstatement]
  exact List.mem_filterMap.mpr ⟨l, List.mem_of_getElem? hl, htarget⟩

/-- **Loops and includes do not leak.** After a run that succeeds, every local that no statement of the program assigns
is bound as before, to the same value or to nothing. Loops may have used it as their variable, nested into one another
or as both of their variables, and included templates may have assigned it. -/
theorem local_eq_of_not_assigned (loader : Loader σ) (p : Program) {name : String} (hname : name ∉ p.targets)
    {ctx ctx' : Context} {session session' : Session σ}
    (hrun : (p.run (Template.inclusion loader (maxIncludes - ctx.depth))).run.run (ctx, session) =
      (.ok (), ctx', session')) :
    Bindings.get? ctx'.locals name = Bindings.get? ctx.locals name := by
  rw [Program.run_eq_interpret] at hrun
  have hops : ∀ op ∈ p.code.ops, ∀ e, op.op ≠ .assign name e := by
    intro op hop e heq
    exact hname (Program.mem_targets_of_assign (by rwa [p.linked, List.mem_toArray]) heq)
  exact Code.interpret_spares (Template.inclusion_spares loader _) p.code hops _ _ _ _ _ hrun

/-- A loop that binds one variable twice, another one over the same variable inside, and an include that assigns it. -/
theorem local_eq_of_not_assigned_nested :
    let page := "%\x7b for x, x in [1, 2] \x7d%\x7b for x in [3] \x7d%\x7b y = x \x7d" ++
      "%\x7b include 'part', z: 0 \x7d%\x7b end \x7d%\x7b end \x7d$\x7b x \x7d"
    let loader : Loader Unit :=
      .direct (.inMemory .firstPass [("part", "%\x7b x = 4 \x7d%\x7b z = 5 \x7d"), ("page", page)])
    let ctx := Context.fresh (fun _ => none) [("x", .string "a")] id true
    ∃ t session ctx' session', (loader.template "page").run.run ⟨(), []⟩ = (.ok t, session) ∧
      t.program.targets = ["y"] ∧
      (t.program.run (Template.inclusion loader maxIncludes)).run.run (ctx, ⟨(), []⟩) = (.ok (), ctx', session') ∧
      Bindings.get? ctx'.locals "x" = some (.string "a") ∧ Bindings.get? ctx'.locals "z" = none := by
  intro page loader ctx
  -- the machine is run, since rendering itself does not reduce
  obtain ⟨t, session, hload, hg⟩ := exists_run_eq_ok (s := ⟨(), []⟩) (x := loader.template "page")
    (g := fun t => (t.program.targets, (Progress.after loader 40 (.running (.start t ctx ⟨(), []⟩))).text?))
    (b := (["y"], some "a")) (by decide +kernel)
  obtain ⟨htargets, htext⟩ := Prod.mk.inj hg
  obtain ⟨rest, session', hrender⟩ := Template.run_render_of_text? htext
  obtain ⟨ctx', hrun, -, -⟩ := Template.of_run_render_eq_ok hrender
  have hkept (name : String) (hname : name ≠ "y") :
      Bindings.get? ctx'.locals name = Bindings.get? ctx.locals name :=
    local_eq_of_not_assigned loader t.program (by rw [htargets]; simpa using hname) hrun
  exact ⟨t, session, ctx', session', hload, htargets, hrun, hkept "x" (by decide), hkept "z" (by decide)⟩

end Stencil
