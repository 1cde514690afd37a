import Stencil.Proofs.Interpretation
import Stencil.Proofs.Operations

/-!
# Rendering step by step

The machine here performs one operation at a time, also those of templates that are included: a template that includes
another one waits for it (`Config`, `Config.step`). Behind its last operation a template is left, and what it has
written goes to the one that waits. Loops go back as far as their operations say.

`Config.start_comes` says that the machine comes to what `Template.render` gives after finitely many operations. It does
so by following the interpreter. `Does` says that the machine does some work from a control on; there is a rule for each
kind of operation (`Does.op`, `Does.includes`, `Does.test`, `Does.loop`), and with them `Does.code` follows nested code
part by part. Included templates are followed by induction on the depth that is left to them (`calls`).
-/

namespace Stencil

open Script (Expr LoopVars)

variable {σ α β : Type}

/-! ## The steps -/

/-- A template in the course of being rendered, and how far it has come. -/
structure Activation where
  template : Template
  control : Control
  ctx : Context

/-- The machine between two operations: the template that is being rendered, those that wait for it because they include
it, innermost first, and the session. -/
structure Config (σ : Type) where
  active : Activation
  waiting : List Activation
  session : Session σ

/-- What a render comes to: its result, the context that it leaves, and the session. -/
abbrev Ending (σ : Type) := Except Error String × Context × Session σ

/-- The machine goes on, or the render has ended. -/
inductive Progress (σ : Type)
  | running (c : Config σ)
  | ended (e : Ending σ)

/-- Control after a move, without the bound that `Control.move` puts on loops: a loop that has passes left goes back as
far as its last operation says. -/
def Control.goOn (c : Control) : Move → Control
  | .ahead count => ⟨c.place + 1 + count, c.frames⟩
  | .enter passes saved => ⟨c.place + 1, ⟨passes, saved, c.place + 1⟩ :: c.frames⟩
  | .again back =>
    match c.frames with
    | [] => ⟨c.place + 1, []⟩
    | ⟨[], _, _⟩ :: frames => ⟨c.place + 1, frames⟩
    | ⟨_ :: passes, saved, body⟩ :: frames => ⟨c.place - back, ⟨passes, saved, body⟩ :: frames⟩

/-- The ending of a render that fails. It leaves the context that the render was started in, with no text. -/
def failed (e : Error) (ctx : Context) (session : Session σ) : List Activation → Ending σ
  | [] => (.error e, { ctx with buffer := "" }, session)
  | caller :: waiting => failed e caller.ctx session waiting

theorem fst_failed (e : Error) (ctx : Context) (session : Session σ) (waiting : List Activation) :
    (failed e ctx session waiting).1 = .error e := by
  induction waiting generalizing ctx with
  | nil => rfl
  | cons caller waiting ih => exact ih caller.ctx

namespace Config

/-- The operation that is next in the active template. -/
def next? (c : Config σ) : Option LinkedOp := c.active.template.program.ops[c.active.control.place]?

/-- The render fails. -/
def fail (c : Config σ) (e : Error) : Progress σ := .ended (failed e c.active.ctx c.session c.waiting)

/-- The active template does some work, and then the machine goes on. -/
def perform (c : Config σ) (x : Run σ α) (k : α → Config σ → Progress σ) : Progress σ :=
  match x.run.run (c.active.ctx, c.session) with
  | (.ok a, ctx, session) => k a ⟨{ c.active with ctx }, c.waiting, session⟩
  | (.error e, ctx, session) => fail ⟨{ c.active with ctx }, c.waiting, session⟩ e

/-- Control of the active template goes on. -/
def goOn (c : Config σ) (m : Move) : Config σ :=
  ⟨{ c.active with control := c.active.control.goOn m }, c.waiting, c.session⟩

/-- The active template waits for another one, which is rendered with further locals. -/
def call (c : Config σ) (t : Template) (extra : Bindings Value) : Config σ :=
  ⟨⟨t, ⟨0, []⟩, c.active.ctx.derive extra⟩, (c.goOn (.ahead 0)).active :: c.waiting, c.session⟩

/-- The active template is rendered. What it has written goes to the one that waits for it. -/
def leave (c : Config σ) : Progress σ :=
  match c.waiting with
  | [] => .ended (.ok c.active.ctx.buffer, { c.active.ctx with buffer := "" }, c.session)
  | caller :: waiting => .running ⟨{ caller with ctx := caller.ctx.write c.active.ctx.buffer }, waiting, c.session⟩

/-- A template is included, unless the active one is too deep already. -/
def insert (loader : Loader σ) (op : LinkedOp) (asked : String × Bindings Value) (c : Config σ) : Progress σ :=
  if maxIncludes ≤ c.active.ctx.depth then c.fail (c.active.template.program.fault op (.includeTooDeep asked.1))
  else c.perform (Work.ofLoad (loader.template asked.1)) fun t c => .running (c.call t asked.2)

/-- One operation. -/
def step (loader : Loader σ) (c : Config σ) : Progress σ :=
  match c.next? with
  | none => c.leave
  | some op =>
    match op.op with
    | .includes name extra => c.perform (c.active.template.program.asked op name extra) (insert loader op)
    | _ =>
      c.perform (c.active.template.program.perform (fun _ _ _ => pure ()) c.active.control.frames op) fun m c =>
        .running (c.goOn m)

/-- The machine before the first operation. -/
def start (t : Template) (ctx : Context) (session : Session σ) : Config σ := ⟨⟨t, ⟨0, []⟩, ctx⟩, [], session⟩

end Config

namespace Progress

/-- One operation, if the render has not ended. -/
def advance (loader : Loader σ) : Progress σ → Progress σ
  | running c => c.step loader
  | ended e => ended e

/-- So many operations. -/
def after (loader : Loader σ) : Nat → Progress σ → Progress σ
  | 0, s => s
  | n + 1, s => after loader n (s.advance loader)

/-- The render comes to its end after finitely many operations. -/
def Comes (loader : Loader σ) (s : Progress σ) (e : Ending σ) : Prop := ∃ n, after loader n s = .ended e

variable {loader : Loader σ} {s : Progress σ} {e : Ending σ}

theorem Comes.ended (loader : Loader σ) (e : Ending σ) : Comes loader (.ended e) e := ⟨0, rfl⟩

theorem Comes.of_step {c : Config σ} (h : Comes loader (c.step loader) e) : Comes loader (.running c) e := by
  obtain ⟨n, hn⟩ := h
  exact ⟨n + 1, hn⟩

end Progress

/-! ## Work and what follows it -/

/-- What a render comes to by some work of the active template, and by what follows. -/
def settle (waiting : List Activation) (x : Run σ α) (k : α → Context → Session σ → Ending σ) (ctx : Context)
    (session : Session σ) : Ending σ :=
  match x.run.run (ctx, session) with
  | (.ok a, ctx, session) => k a ctx session
  | (.error e, ctx, session) => failed e ctx session waiting

section Settle

variable {waiting : List Activation} {x : Run σ α} {f : α → Run σ β} {k : β → Context → Session σ → Ending σ}
variable {ctx ctx' : Context} {session session' : Session σ}

theorem settle_of_ok {k : α → Context → Session σ → Ending σ} {a : α}
    (h : x.run.run (ctx, session) = (.ok a, ctx', session')) : settle waiting x k ctx session = k a ctx' session' := by
  unfold settle
  rw [h]

theorem settle_of_error {k : α → Context → Session σ → Ending σ} {e : Error}
    (h : x.run.run (ctx, session) = (.error e, ctx', session')) :
    settle waiting x k ctx session = failed e ctx' session' waiting := by
  unfold settle
  rw [h]

theorem settle_bind : settle waiting (x >>= f) k ctx session =
    settle waiting x (fun a => settle waiting (f a) k) ctx session := by
  rcases h : x.run.run (ctx, session) with ⟨r, ctx', session'⟩
  cases r with
  | ok a =>
    rw [settle_of_ok h]
    unfold settle
    rw [run_bind_of_ok h]
  | error e => rw [settle_of_error h, settle_of_error (run_bind_of_error h)]

end Settle

theorem Config.perform_comes {loader : Loader σ} {c : Config σ} {x : Run σ α} {k : α → Config σ → Progress σ}
    {k' : α → Context → Session σ → Ending σ}
    (h : ∀ a ctx session, x.run.run (c.active.ctx, c.session) = (.ok a, ctx, session) →
      (k a ⟨{ c.active with ctx }, c.waiting, session⟩).Comes loader (k' a ctx session)) :
    (c.perform x k).Comes loader (settle c.waiting x k' c.active.ctx c.session) := by
  rcases hx : x.run.run (c.active.ctx, c.session) with ⟨r, ctx, session⟩
  unfold Config.perform
  rw [hx]
  cases r with
  | ok a =>
    rw [settle_of_ok hx]
    exact h a ctx session hx
  | error e =>
    rw [settle_of_error hx]
    exact .ended loader _

/-! ## The steps do what the interpreter does -/

/-- From the control on, the template does the work, and then the render comes to what follows. -/
def Does (loader : Loader σ) (t : Template) (waiting : List Activation) (depth : Nat)
    (k : Context → Session σ → Ending σ) (control : Control) (x : Run σ Unit) : Prop :=
  ∀ ctx session, ctx.depth = depth →
    (Progress.running ⟨⟨t, control, ctx⟩, waiting, session⟩).Comes loader (settle waiting x (fun _ => k) ctx session)

theorem Config.perform_map (c : Config σ) (x : Run σ α) (g : α → β) (k : β → Config σ → Progress σ) :
    c.perform (do return g (← x)) k = c.perform x fun a => k (g a) := by
  unfold perform
  rcases h : x.run.run (c.active.ctx, c.session) with ⟨r, ctx, session⟩
  cases r with
  | ok a =>
    rw [run_bind_of_ok h]
    rfl
  | error e => rw [run_bind_of_error h]

/-- What a template that is included writes goes to the one that waits for it. -/
theorem settle_inserted (z y : Run σ Unit) (k : Context → Session σ → Ending σ) (extra : Bindings Value)
    (caller : Activation) (waiting : List Activation) (session : Session σ) :
    settle waiting (do
        let ctx ← Work.own
        let (_, inner) ← Work.ofLoad (z.runFrom (ctx.derive extra))
        Work.update (·.write inner.buffer)
        y) (fun _ => k) caller.ctx session =
      settle (caller :: waiting) z (fun _ inner s => settle waiting y (fun _ => k) (caller.ctx.write inner.buffer) s)
        (caller.ctx.derive extra) session := by
  rw [settle_bind, settle_of_ok (x := Work.own) rfl, settle_bind]
  rcases h : z.run.run (caller.ctx.derive extra, session) with ⟨r, inner, session'⟩
  have hload := Work.run_ofLoad caller.ctx (Work.run_runFrom h)
  cases r with
  | ok u =>
    rw [settle_of_ok hload, settle_of_ok h]
    dsimp only
    rw [settle_bind, settle_of_ok (x := Work.update _) rfl]
  | error e =>
    rw [settle_of_error hload, settle_of_error h]
    rfl

/-- Behind the last operation, a template is left. -/
theorem Config.step_of_end (loader : Loader σ) (t : Template) (frames : List Frame) (ctx : Context)
    (waiting : List Activation) (session : Session σ) :
    Config.step loader ⟨⟨t, ⟨t.program.code.ops.length, frames⟩, ctx⟩, waiting, session⟩ =
      Config.leave ⟨⟨t, ⟨t.program.code.ops.length, frames⟩, ctx⟩, waiting, session⟩ := by
  have hend : t.program.ops[t.program.code.ops.length]? = none := by simp [t.program.linked]
  unfold step next?
  dsimp only
  rw [hend]

theorem Program.holds_code (p : Program) : p.Holds 0 p.code.ops := by
  rw [Program.Holds, p.linked]
  simp

/-- The operation is an inclusion. -/
def Op.isInclusion : Op → Bool
  | includes .. => true
  | _ => false

section Does

variable {loader : Loader σ} {t : Template} {waiting : List Activation} {depth : Nat}
variable {k : Context → Session σ → Ending σ} {place : Nat} {frames : List Frame}

/-- An operation other than an inclusion. -/
theorem Does.op {op : LinkedOp} {ops : List LinkedOp} (h : t.program.Holds place (op :: ops))
    (hop : op.op.isInclusion = false) {x : Run σ α} {g : α → Move} {y : α → Run σ Unit}
    {z : Run σ Unit} (hperform : t.program.perform (fun _ _ _ => pure ()) frames op = do return g (← x))
    (hx : Work.Keeps Context.depth x) (hz : z = x >>= y)
    (hy : ∀ a, Does loader t waiting depth k (Control.goOn ⟨place, frames⟩ (g a)) (y a)) :
    Does loader t waiting depth k ⟨place, frames⟩ z := by
  intro ctx session hd
  have hstep : Config.step loader ⟨⟨t, ⟨place, frames⟩, ctx⟩, waiting, session⟩ =
      Config.perform ⟨⟨t, ⟨place, frames⟩, ctx⟩, waiting, session⟩ x fun a c => .running (c.goOn (g a)) := by
    refine Eq.trans ?_ (Config.perform_map _ x g fun m c => .running (c.goOn m))
    rw [← hperform]
    unfold Config.step Config.next?
    dsimp only
    rw [h.head]
    dsimp only
    split
    · next name extra he =>
      rw [he] at hop
      cases hop
    · rfl
  apply Progress.Comes.of_step
  rw [hstep, hz, settle_bind]
  refine Config.perform_comes fun a ctx' session' hrun => ?_
  have hkeeps := hx ctx session
  rw [hrun] at hkeeps
  exact hy a ctx' session' (hkeeps.trans hd)

/-- An operation behind which control goes on to the next one. -/
theorem Does.straight {op : LinkedOp} {ops : List LinkedOp} (h : t.program.Holds place (op :: ops))
    (hop : op.op.isInclusion = false) {x y z : Run σ Unit}
    (hperform : t.program.perform (fun _ _ _ => pure ()) frames op = do
      x
      return .ahead 0)
    (hx : Work.Keeps Context.depth x) (hy : Does loader t waiting depth k ⟨place + 1, frames⟩ y)
    (hz : z = do
      x
      y) : Does loader t waiting depth k ⟨place, frames⟩ z :=
  .op h hop (g := fun _ => .ahead 0) hperform hx hz fun _ => hy

/-- A template that is included is rendered, and what it writes is written. -/
def Calls (loader : Loader σ) (depth : Nat) : Prop :=
  ∀ (t : Template) (waiting : List Activation) (k : Context → Session σ → Ending σ),
    (∀ ctx session, ctx.depth = depth →
      (Progress.running ⟨⟨t, ⟨t.program.code.ops.length, []⟩, ctx⟩, waiting, session⟩).Comes loader (k ctx session)) →
    Does loader t waiting depth k ⟨0, []⟩ (t.program.interpret (including loader depth))

theorem Does.includes {name : Expr} {extra : List (String × Expr)} {source : Nat} {ops : List LinkedOp}
    (h : t.program.Holds place (⟨.includes name extra, source⟩ :: ops))
    (hcalls : depth < maxIncludes → Calls loader (depth + 1)) {y : Run σ Unit}
    (hy : Does loader t waiting depth k ⟨place + 1, frames⟩ y) :
    Does loader t waiting depth k ⟨place, frames⟩ (do
      let asked ← t.program.asked ⟨.includes name extra, source⟩ name extra
      including loader depth (positionIn t.program.origin t.program.instructions source) asked.1 asked.2
      y) := by
  intro ctx session hd
  have hstep : Config.step loader ⟨⟨t, ⟨place, frames⟩, ctx⟩, waiting, session⟩ =
      Config.perform ⟨⟨t, ⟨place, frames⟩, ctx⟩, waiting, session⟩
        (t.program.asked ⟨.includes name extra, source⟩ name extra)
        (Config.insert loader ⟨.includes name extra, source⟩) := by
    unfold Config.step Config.next?
    dsimp only
    rw [h.head]
  apply Progress.Comes.of_step
  rw [hstep, settle_bind]
  refine Config.perform_comes fun asked ctx₁ session₁ hrun => ?_
  have hd₁ : ctx₁.depth = depth := by
    have hkeeps := (t.program.keeps_depth ⟨.includes name extra, source⟩).asked name extra ctx session
    rw [hrun] at hkeeps
    exact hkeeps.trans hd
  unfold Config.insert
  rw [including, hd₁]
  by_cases hdeep : maxIncludes ≤ depth
  · rw [if_pos hdeep, if_pos hdeep]
    exact .ended loader _
  · rw [if_neg hdeep, if_neg hdeep, bind_assoc, settle_bind]
    refine Config.perform_comes fun callee ctx₂ session₂ hload => ?_
    obtain ⟨rfl, -⟩ := Work.of_run_ofLoad hload
    simp only [bind_assoc]
    rw [settle_inserted _ _ _ asked.2 ⟨t, ⟨place + 1, frames⟩, ctx₂⟩ waiting session₂]
    refine hcalls (by omega) callee _ _ (fun inner session₃ hinner => ?_) _ session₂ (congrArg (· + 1) hd₁)
    apply Progress.Comes.of_step
    rw [Config.step_of_end]
    exact hy (ctx₂.write inner.buffer) session₃ hd₁

/-- Behind an operation and those that follow it. -/
theorem Does.tail {op : LinkedOp} {ops : List LinkedOp} {y : Run σ Unit}
    (h : Does loader t waiting depth k ⟨place + (op :: ops).length, frames⟩ y) :
    Does loader t waiting depth k ⟨place + 1 + ops.length, frames⟩ y := by
  rwa [List.length_cons, Nat.add_comm ops.length, ← Nat.add_assoc] at h

theorem Does.right {as bs : List LinkedOp} {y : Run σ Unit}
    (h : Does loader t waiting depth k ⟨place + (as ++ bs).length, frames⟩ y) :
    Does loader t waiting depth k ⟨place + as.length + bs.length, frames⟩ y := by
  rwa [List.length_append, ← Nat.add_assoc] at h

/-- A loop that is entered. -/
theorem Does.loop {body : Code} {endPlace : Nat} {ops : List LinkedOp} {saved : List (String × Option Value)}
    {start : Nat} {y z : Run σ Unit}
    (h : t.program.Holds (place + body.ops.length) (⟨.loopNext body.ops.length, endPlace⟩ :: ops))
    (hbody : ∀ {frames : List Frame} {y : Run σ Unit},
      Does loader t waiting depth k ⟨place + body.ops.length, frames⟩ y →
        Does loader t waiting depth k ⟨place, frames⟩ (do z; y))
    (hy : Does loader t waiting depth k ⟨place + body.ops.length + 1, frames⟩ y)
    (passes : List (List (String × Value))) :
    Does loader t waiting depth k ⟨place, ⟨passes, saved, start⟩ :: frames⟩ (do
      z
      passes.forM fun pass => do
        Work.update (·.bind pass)
        z
      Work.update (·.restore saved)
      y) := by
  induction passes with
  | nil =>
    rw [List.forM, pure_bind]
    refine hbody (.op h rfl (g := fun _ => .again body.ops.length) rfl ?_ rfl fun _ => hy)
    exact .update fun ctx => ctx.depth_restore saved
  | cons pass passes ih =>
    simp only [List.forM, bind_assoc]
    refine hbody (.op h rfl (g := fun _ => .again body.ops.length) rfl ?_ rfl fun _ => ?_)
    · exact .update fun ctx => ctx.depth_bind pass
    · simp only [Control.goOn, Nat.add_sub_cancel]
      exact ih

/-- A condition, which leads on or over something. -/
theorem Does.test {test : Expr} {ahead source : Nat} {ops : List LinkedOp}
    (h : t.program.Holds place (⟨.jumpUnless test ahead, source⟩ :: ops)) {y : Bool → Run σ Unit} {z : Run σ Unit}
    (hz : z = do
      let v ← t.program.evaluate ⟨.jumpUnless test ahead, source⟩ test
      y v.truthy)
    (hon : Does loader t waiting depth k ⟨place + 1, frames⟩ (y true))
    (hover : Does loader t waiting depth k ⟨place + 1 + ahead, frames⟩ (y false)) :
    Does loader t waiting depth k ⟨place, frames⟩ z := by
  refine .op h rfl (g := fun v => .ahead (if v.truthy then 0 else ahead)) rfl ((t.program.keeps_depth _).evaluate test)
    hz fun v => ?_
  cases v.truthy with
  | true => exact hon
  | false => exact hover

/-- What the nested code says, done for the template. -/
abbrev Code.follow (loader : Loader σ) (t : Template) (depth : Nat) (c : Code) : Run σ Unit :=
  c.interpret (positionIn t.program.origin t.program.instructions) (including loader depth)

/-- A loop is entered, or there is nothing to be done for it. -/
theorem Code.follow_loop (loader : Loader σ) (t : Template) (depth : Nat) {vars : LoopVars} {iterable : Expr}
    {source : Nat} (body next : Code) (op : Op) (endPlace : Nat) (y : Run σ Unit) :
    (do
      (Code.loop source vars iterable body endPlace next).follow loader t depth
      y) = (do
      let entered ← t.program.enterLoop ⟨op, source⟩ vars iterable
      entered.elim (do
        next.follow loader t depth
        y) fun loop => do
          body.follow loader t depth
          loop.1.forM fun pass => do
            Work.update (·.bind pass)
            body.follow loader t depth
          Work.update (·.restore loop.2)
          next.follow loader t depth
          y) := by
  simp only [Code.interpret, Program.evaluate_eq, Program.enterLoop, bind_assoc]
  refine bind_congr fun v => ?_
  rcases vars.passes v with e | _ | ⟨pass, passes⟩
  · rfl
  · simp only [pure_bind]
    rfl
  · simp only [List.forM, bind_assoc, pure_bind]
    rfl

/-- The interpreter is followed, operation by operation. -/
theorem Does.code (hcalls : depth < maxIncludes → Calls loader (depth + 1)) (c : Code) :
    ∀ {place : Nat} {frames : List Frame} {y : Run σ Unit}, t.program.Holds place c.ops →
      Does loader t waiting depth k ⟨place + c.ops.length, frames⟩ y →
        Does loader t waiting depth k ⟨place, frames⟩ (do
          c.follow loader t depth
          y) := by
  induction c with
  | done =>
    intro place frames y _ hy
    rw [Code.follow, Code.interpret, pure_bind]
    exact hy
  | literal source text next ih =>
    intro place frames y h hy
    have hnext := ih h.tail hy.tail
    refine .straight h rfl (x := Work.update (·.write text)) rfl (.update fun _ => rfl) hnext ?_
    rw [Code.follow, Code.interpret, bind_assoc]
  | emit source e escaped next ih =>
    intro place frames y h hy
    have hnext := ih h.tail hy.tail
    refine .straight h rfl (x := do
      let v ← t.program.evaluate ⟨.emit e escaped, source⟩ e
      Work.update fun ctx => ctx.write (if escaped then ctx.escape v.text else v.text)) ?_ ?_ hnext ?_
    · simp only [Program.perform, bind_assoc]
    · exact ((t.program.keeps_depth _).evaluate e).bind fun v => .update fun _ => rfl
    · simp only [Code.interpret, Program.evaluate_eq, bind_assoc]
  | assign source name e next ih =>
    intro place frames y h hy
    have hnext := ih h.tail hy.tail
    refine .straight h rfl (x := do
      let v ← t.program.evaluate ⟨.assign name e, source⟩ e
      Work.update (·.setLocal name v)) ?_ ?_ hnext ?_
    · simp only [Program.perform, bind_assoc]
    · exact ((t.program.keeps_depth _).evaluate e).bind fun v => .update fun _ => rfl
    · simp only [Code.interpret, Program.evaluate_eq, bind_assoc]
  | includes source name extra next ih =>
    intro place frames y h hy
    have hnext := ih h.tail hy.tail
    have hincludes := Does.includes h hcalls hnext
    simp only [Program.asked, Program.evaluate_eq, bind_assoc, pure_bind] at hincludes
    simp only [Code.interpret, bind_assoc]
    exact hincludes
  | eval source e next ih =>
    intro place frames y h hy
    have hnext := ih h.tail hy.tail
    refine .straight h rfl (x := do let _ ← t.program.evaluate ⟨.eval e, source⟩ e) ?_ ?_ hnext ?_
    · simp only [Program.perform, bind_assoc, pure_bind]
    · exact ((t.program.keeps_depth _).evaluate e).bind fun v => .pure _
    · simp only [Code.interpret, Program.evaluate_eq, bind_assoc, pure_bind]
  | ifThen source test body next ihBody ihNext =>
    intro place frames y h hy
    have hnext := ihNext h.tail.right hy.tail.right
    have hbody := ihBody h.tail.left hnext
    refine .test h (y := fun holds =>
      if holds then do
        body.follow loader t depth
        next.follow loader t depth
        y
      else do
        next.follow loader t depth
        y) ?_ hbody hnext
    simp only [Code.interpret, Program.evaluate_eq, bind_assoc]
    refine bind_congr fun v => ?_
    cases v.truthy with
    | true => simp only [↓reduceIte, bind_assoc]
    | false => simp only [Bool.false_eq_true, ↓reduceIte]
  | ifElse source test body elsePlace alternative next ihBody ihAlternative ihNext =>
    intro place frames y h hy
    have hjump : t.program.Holds (place + 1 + body.ops.length) (_ :: (alternative.ops ++ next.ops)) := h.tail.right
    have hnext := ihNext hjump.tail.right hy.tail.right.tail.right
    have hbody := ihBody h.tail.left
      (.op hjump rfl (x := pure ()) (g := fun _ => .ahead alternative.ops.length) rfl (.pure ()) (pure_bind ..).symm
        fun _ => hnext)
    have halternative := ihAlternative hjump.tail.left hnext
    refine .test h (y := fun holds =>
      if holds then do
        body.follow loader t depth
        next.follow loader t depth
        y
      else do
        alternative.follow loader t depth
        next.follow loader t depth
        y) ?_ hbody halternative
    simp only [Code.interpret, Program.evaluate_eq, bind_assoc]
    refine bind_congr fun v => ?_
    cases v.truthy with
    | true => simp only [↓reduceIte, bind_assoc]
    | false => simp only [Bool.false_eq_true, ↓reduceIte, bind_assoc]
  | loop source vars iterable body endPlace next ihBody ihNext =>
    intro place frames y h hy
    have hend := h.tail.right
    have hnext := ihNext hend.tail hy.tail.right.tail
    refine .op h rfl (t.program.perform_loopStart _ frames vars iterable _ source)
      ((t.program.keeps_depth _).enterLoop rfl) (Code.follow_loop loader t depth body next _ endPlace y) ?_
    rintro (_ | entered)
    · exact hnext
    · exact .loop hend (fun hy => ihBody h.tail.left hy) hnext entered.1

end Does

/-! ## Renders end -/

/-- A template is rendered and left, however deep it is included. -/
theorem calls (loader : Loader σ) (depth : Nat) : Calls loader depth := by
  induction hlevels : maxIncludes - depth using Nat.strongRecOn generalizing depth with
  | _ levels ih =>
    intro t waiting k hend
    have hcalls : depth < maxIncludes → Calls loader (depth + 1) := fun hlt => ih _ (by omega) (depth + 1) rfl
    have hdone : Does loader t waiting depth k ⟨0 + t.program.code.ops.length, []⟩ (pure ()) := by
      intro ctx session hd
      rw [settle_of_ok (x := pure ()) rfl, Nat.zero_add]
      exact hend ctx session hd
    have hcode := Does.code hcalls t.program.code t.program.holds_code hdone
    rw [bind_pure_unit] at hcode
    exact hcode

/-- **Every render ends.** After finitely many operations the machine comes to what `Template.render` gives. -/
theorem Config.start_comes (loader : Loader σ) (t : Template) (ctx : Context) (session : Session σ) :
    (Progress.running (start t ctx session)).Comes loader ((t.render loader).run.run (ctx, session)) := by
  have hend (ctx' : Context) (session' : Session σ) :
      (Progress.running ⟨⟨t, ⟨t.program.code.ops.length, []⟩, ctx'⟩, [], session'⟩).Comes loader
        (.ok ctx'.buffer, { ctx' with buffer := "" }, session') := by
    apply Progress.Comes.of_step
    rw [step_of_end]
    exact .ended loader _
  have hcomes := calls loader ctx.depth t [] _ (fun ctx' session' _ => hend ctx' session') ctx session rfl
  have hrender : settle [] (t.program.interpret (including loader ctx.depth))
      (fun _ ctx' session' => (.ok ctx'.buffer, { ctx' with buffer := "" }, session')) ctx session =
        (t.render loader).run.run (ctx, session) := by
    rw [← including_eq loader _ ctx.depth rfl, ← Program.run_eq_interpret]
    rcases h : (t.program.run (Template.inclusion loader (maxIncludes - ctx.depth))).run.run (ctx, session) with
      ⟨r, ctx', session'⟩
    rw [Template.run_render h]
    cases r with
    | ok u => exact settle_of_ok h
    | error e => exact settle_of_error h
  rw [hrender] at hcomes
  exact hcomes

end Stencil
