import Stencil.Proofs.Nesting
import Stencil.Memory

/-!
# What nested code does

`Code.interpret` says what nested code does, part by part and without jumps. A condition has one of its branches done, a
loop its body once for each pass, with the variables of the loop bound; behind the last pass they get back what they
were bound to before. `Code.including` is what an inclusion does: the nested code of the template is interpreted in a
derived context, and what is written there is all that is left of it.

`run_eq_interpret` says that a linked program does what its instructions say: their nested code is settled by the
grammar, and running the operations is interpreting it, failures and all.
-/

namespace Stencil

open Script (Expr LoopVars)

variable {σ : Type}

/-! ## The interpreter -/

/-- The position of the instruction at a place. -/
def positionIn (origin : String) (instructions : List Located) (place : Nat) : Position :=
  (instructions[place]?).elim ⟨origin, 0⟩ Located.position

/-- The value of an expression in the present context. A failure is put down to the position. -/
def evaluateAt (position : Position) (e : Expr) : Run σ Value := do
  let ctx ← Work.own
  match e.eval ctx.scope with
  | .ok v => return v
  | .error e => throw (.render position (.evaluation e))

namespace Code

/-- Does what nested code says. Every instruction has the position of its place. -/
def interpret (position : Nat → Position) (inclusion : Inclusion σ) : Code → Run σ Unit
  | done => return
  | literal _ text next => do
    Work.update (·.write text)
    next.interpret position inclusion
  | emit place e escaped next => do
    let v ← evaluateAt (position place) e
    Work.update fun ctx => ctx.write (if escaped then ctx.escape v.text else v.text)
    next.interpret position inclusion
  | assign place name e next => do
    let v ← evaluateAt (position place) e
    Work.update (·.setLocal name v)
    next.interpret position inclusion
  | includes place name extra next => do
    let name ← evaluateAt (position place) name
    let extra ← extra.mapM fun (key, e) => return (key, ← evaluateAt (position place) e)
    inclusion (position place) name.text (Bindings.ofList extra)
    next.interpret position inclusion
  | eval place e next => do
    let _ ← evaluateAt (position place) e
    next.interpret position inclusion
  | ifThen place test body next => do
    let v ← evaluateAt (position place) test
    if v.truthy then body.interpret position inclusion
    next.interpret position inclusion
  | ifElse place test body _ alternative next => do
    let v ← evaluateAt (position place) test
    if v.truthy then body.interpret position inclusion else alternative.interpret position inclusion
    next.interpret position inclusion
  | loop place vars iterable body _ next => do
    let v ← evaluateAt (position place) iterable
    match vars.passes v with
    | .error e => throw (.render (position place) (.evaluation e))
    | .ok [] => pure ()
    | .ok passes =>
      let before ← Work.own
      passes.forM fun pass => do
        Work.update (·.bind pass)
        body.interpret position inclusion
      Work.update (·.restore (vars.names.map fun name => (name, Bindings.get? before.locals name)))
    next.interpret position inclusion

end Code

/-- Does what the instructions of a program say. -/
def Program.interpret (p : Program) (inclusion : Inclusion σ) : Run σ Unit :=
  p.code.interpret (positionIn p.origin p.instructions) inclusion

/-- Includes a template from a context of the given depth: its instructions are followed in a context with further
locals, and what they write is written. -/
def including (loader : Loader σ) (depth : Nat) : Inclusion σ := fun position name extra =>
  if maxIncludes ≤ depth then throw (.render position (.includeTooDeep name))
  else do
    let t ← Work.ofLoad (loader.template name)
    let ctx ← Work.own
    let (_, inner) ← Work.ofLoad ((t.program.interpret (including loader (depth + 1))).runFrom (ctx.derive extra))
    Work.update (·.write inner.buffer)
termination_by maxIncludes - depth

/-! ## The machine does what the interpreter does -/

section Machine

variable (p : Program) (inclusion : Inclusion σ)

/-- The operations stand in the program from the place on. -/
def Program.Holds (place : Nat) (ops : List LinkedOp) : Prop := ops <+: p.ops.toList.drop place

variable {p} {place : Nat}

theorem Program.Holds.head {op : LinkedOp} {ops : List LinkedOp} (h : p.Holds place (op :: ops)) :
    p.ops[place]? = some op := by
  obtain ⟨rest, h⟩ := h
  have := congrArg (·[0]?) h
  simpa [eq_comm] using this

theorem Program.Holds.left {as bs : List LinkedOp} (h : p.Holds place (as ++ bs)) : p.Holds place as :=
  (List.prefix_append as bs).trans h

theorem Program.Holds.right {as bs : List LinkedOp} (h : p.Holds place (as ++ bs)) :
    p.Holds (place + as.length) bs := by
  obtain ⟨rest, h⟩ := h
  refine ⟨rest, ?_⟩
  rw [← List.drop_drop, ← h]
  simp

theorem Program.Holds.tail {op : LinkedOp} {ops : List LinkedOp} (h : p.Holds place (op :: ops)) :
    p.Holds (place + 1) ops := @Holds.right p place [op] ops h

variable {inclusion}

theorem Program.runFrom_of_holds {frames : List Frame} {op : LinkedOp} {ops : List LinkedOp}
    (h : p.Holds place (op :: ops)) :
    p.runFrom inclusion ⟨place, frames⟩ = (do
      let m ← p.perform inclusion frames op
      p.runFrom inclusion (Control.move ⟨place, frames⟩ m)) := by
  rw [runFrom]
  split
  · next h' => simp [h.head] at h'
  · next op' h' =>
    rw [h.head] at h'
    cases h'
    rfl

theorem Program.evaluate_eq (op : LinkedOp) (e : Expr) :
    (p.evaluate op e : Run σ Value) = evaluateAt (positionIn p.origin p.instructions op.place) e := rfl

theorem runFrom_loop {frames : List Frame} {body : Code} {endPlace : Nat}
    (passes : List (List (String × Value)))
    (saved : List (String × Option Value))
    (hb : ∀ frames, p.runFrom inclusion ⟨place, frames⟩ = (do
      body.interpret (positionIn p.origin p.instructions) inclusion
      p.runFrom inclusion ⟨place + body.ops.length, frames⟩))
    {ops : List LinkedOp}
    (h : p.Holds (place + body.ops.length) (⟨.loopNext body.ops.length, endPlace⟩ :: ops)) :
    p.runFrom inclusion ⟨place, ⟨passes, saved, place⟩ :: frames⟩ = (do
      body.interpret (positionIn p.origin p.instructions) inclusion
      passes.forM fun pass => do
        Work.update (·.bind pass)
        body.interpret (positionIn p.origin p.instructions) inclusion
      Work.update (·.restore saved)
      p.runFrom inclusion ⟨place + body.ops.length + 1, frames⟩) := by
  induction passes with
  | nil =>
    rw [hb, Program.runFrom_of_holds h]
    simp [Program.perform, Control.move]
  | cons pass passes ih =>
    rw [hb, Program.runFrom_of_holds h]
    simp only [Program.perform, Control.move, bind_assoc, pure_bind, Nat.add_sub_cancel, Nat.max_self, ih, List.forM]

theorem runFrom_eq_interpret (c : Code) {frames : List Frame} (h : p.Holds place c.ops) :
    p.runFrom inclusion ⟨place, frames⟩ = (do
      c.interpret (positionIn p.origin p.instructions) inclusion
      p.runFrom inclusion ⟨place + c.ops.length, frames⟩) := by
  induction c generalizing place frames with
  | done => simp [Code.interpret, Code.ops]
  | literal _ text next ih =>
    rw [Program.runFrom_of_holds h]
    simp [Program.perform, Control.move, Code.interpret, ih h.tail, Code.ops, Nat.add_assoc, Nat.add_comm]
  | emit _ e escaped next ih =>
    rw [Program.runFrom_of_holds h]
    simp [Program.perform, Program.evaluate_eq, Control.move, Code.interpret, ih h.tail, Code.ops, Nat.add_assoc,
      Nat.add_comm]
  | assign _ name e next ih =>
    rw [Program.runFrom_of_holds h]
    simp [Program.perform, Program.evaluate_eq, Control.move, Code.interpret, ih h.tail, Code.ops, Nat.add_assoc,
      Nat.add_comm]
  | includes _ name extra next ih =>
    rw [Program.runFrom_of_holds h]
    simp [Program.perform, Program.evaluate_eq, Control.move, Code.interpret, ih h.tail, Code.ops, Nat.add_assoc,
      Nat.add_comm]
    rfl
  | eval _ e next ih =>
    rw [Program.runFrom_of_holds h]
    simp [Program.perform, Program.evaluate_eq, Control.move, Code.interpret, ih h.tail, Code.ops, Nat.add_assoc,
      Nat.add_comm]
  | ifThen source test body next ihBody ihNext =>
    have hBody := @ihBody (place + 1) frames h.tail.left
    have hNext := @ihNext (place + 1 + body.ops.length) frames h.tail.right
    have hEnd : place + (Code.ifThen source test body next).ops.length =
        place + 1 + body.ops.length + next.ops.length := by
      simp only [Code.ops, List.length_cons, List.length_append]
      omega
    rw [Program.runFrom_of_holds h, hEnd]
    simp only [Program.perform, Program.evaluate_eq, Code.interpret, bind_assoc, pure_bind, Control.move]
    refine bind_congr fun v => ?_
    cases v.truthy with
    | true => simp [hBody, hNext]
    | false => simp [hNext]
  | ifElse source test body elsePlace alternative next ihBody ihAlternative ihNext =>
    have hBody := @ihBody (place + 1) frames h.tail.left
    have hJump : p.Holds (place + 1 + body.ops.length) (_ :: (alternative.ops ++ next.ops)) := h.tail.right
    have hAlternative := @ihAlternative (place + 1 + body.ops.length + 1) frames hJump.tail.left
    have hNext := @ihNext (place + 1 + body.ops.length + 1 + alternative.ops.length) frames hJump.tail.right
    have hEnd : place + (Code.ifElse source test body elsePlace alternative next).ops.length =
        place + 1 + body.ops.length + 1 + alternative.ops.length + next.ops.length := by
      simp only [Code.ops, List.length_cons, List.length_append]
      omega
    rw [Program.runFrom_of_holds h, hEnd]
    simp only [Program.perform, Program.evaluate_eq, Code.interpret, bind_assoc, pure_bind, Control.move]
    refine bind_congr fun v => ?_
    cases v.truthy with
    | true =>
      simp only [↓reduceIte, Nat.add_zero]
      rw [hBody, Program.runFrom_of_holds hJump]
      simp only [Program.perform, pure_bind, Control.move, hNext, bind_assoc]
    | false =>
      simp only [Bool.false_eq_true, ↓reduceIte]
      rw [← Nat.add_assoc, hAlternative, hNext, bind_assoc]
  | loop source vars iterable body endPlace next ihBody ihNext =>
    have hLoop := h.tail.right
    have hNext := @ihNext (place + 1 + body.ops.length + 1) frames hLoop.tail
    have hEnd : place + (Code.loop source vars iterable body endPlace next).ops.length =
        place + 1 + body.ops.length + 1 + next.ops.length := by
      simp only [Code.ops, List.length_cons, List.length_append]
      omega
    rw [Program.runFrom_of_holds h, hEnd]
    simp only [Program.perform, Program.evaluate_eq, Code.interpret, bind_assoc]
    refine bind_congr fun v => ?_
    cases vars.passes v with
    | error e => rfl
    | ok passes =>
      cases passes with
      | nil =>
        simp only [pure_bind, Control.move]
        rw [← Nat.add_assoc, hNext]
      | cons pass passes =>
        simp only [bind_assoc, pure_bind, Control.move]
        refine bind_congr fun before => ?_
        rw [runFrom_loop passes _ (fun frames => ihBody h.tail.left) hLoop, hNext]
        simp only [List.forM, bind_assoc]

theorem Program.run_eq_interpret (p : Program) (inclusion : Inclusion σ) : p.run inclusion = p.interpret inclusion := by
  have h : p.Holds 0 p.code.ops := by
    rw [Program.Holds, p.linked]
    simp
  have hEnd : p.runFrom inclusion ⟨0 + p.code.ops.length, []⟩ = pure () := by
    rw [runFrom]
    split
    · rfl
    · next op h' => simp [p.linked] at h'
  rw [run, runFrom_eq_interpret p.code h, hEnd]
  simp [interpret]

end Machine

/-! ## Inclusions -/

theorem Template.run_renderWith {inclusion : Inclusion σ} {t : Template} {ctx ctx' : Context}
    {session session' : Session σ} {result : Except Error Unit}
    (h : (t.program.run inclusion).run.run (ctx, session) = (result, ctx', session')) :
    (t.renderWith inclusion).run.run (ctx, session) =
      (result.map fun _ => ctx'.buffer, { ctx' with buffer := "" }, session') := by
  have h' : t.program.run inclusion (ctx, session) = (result, ctx', session') := h
  simp only [Template.renderWith, ExceptT.run, ExceptT.mk, StateT.run, h']

theorem Template.run_render {loader : Loader σ} {t : Template} {ctx ctx' : Context} {session session' : Session σ}
    {result : Except Error Unit}
    (h : (t.program.run (inclusion loader (maxIncludes - ctx.depth))).run.run (ctx, session) =
      (result, ctx', session')) :
    (t.render loader).run.run (ctx, session) =
      (result.map fun _ => ctx'.buffer, { ctx' with buffer := "" }, session') := by
  have hrender : (t.render loader).run.run (ctx, session) =
      (t.renderWith (inclusion loader (maxIncludes - ctx.depth))).run.run (ctx, session) := by
    unfold render
    exact run_bind_of_ok rfl
  rw [hrender, run_renderWith h]

/-- A render that gives a text has run the program, which has written the text. -/
theorem Template.of_run_render_eq_ok {loader : Loader σ} {t : Template} {ctx ctx' : Context}
    {session session' : Session σ} {text : String}
    (h : (t.render loader).run.run (ctx, session) = (.ok text, ctx', session')) :
    ∃ written, (t.program.run (inclusion loader (maxIncludes - ctx.depth))).run.run (ctx, session) =
        (.ok (), written, session') ∧ text = written.buffer ∧ ctx' = { written with buffer := "" } := by
  rcases hrun : (t.program.run (inclusion loader (maxIncludes - ctx.depth))).run.run (ctx, session) with
    ⟨r, written, after⟩
  have hrender := Template.run_render hrun
  rw [h] at hrender
  cases r with
  | ok u =>
    cases hrender
    exact ⟨written, rfl, rfl, rfl⟩
  | error e => cases hrender

/-- What a template rendered inside another one writes there is what its program leaves in the buffer. -/
theorem write_rendered (inclusion : Inclusion σ) (t : Template) (ctx : Context) :
    (do
      let (output, _) ← Work.ofLoad ((t.renderWith inclusion).runFrom ctx)
      Work.update (·.write output) : Run σ Unit) = (do
      let (_, inner) ← Work.ofLoad ((t.program.run inclusion).runFrom ctx)
      Work.update (·.write inner.buffer)) := by
  refine ExceptT.ext (funext fun (outer, session) => ?_)
  rcases h : (t.program.run inclusion).run.run (ctx, session) with ⟨result, inner, after⟩
  have ht := Template.run_renderWith h
  show StateT.run (ExceptT.run _) (outer, session) = StateT.run (ExceptT.run _) (outer, session)
  cases result with
  | error e =>
    rw [run_bind_of_error (Work.run_ofLoad outer (Work.run_runFrom ht)),
      run_bind_of_error (Work.run_ofLoad outer (Work.run_runFrom h))]
  | ok =>
    rw [run_bind_of_ok (Work.run_ofLoad outer (Work.run_runFrom ht)),
      run_bind_of_ok (Work.run_ofLoad outer (Work.run_runFrom h))]

theorem including_eq (loader : Loader σ) (levels depth : Nat) (h : levels = maxIncludes - depth) :
    Template.inclusion loader levels = including loader depth := by
  induction levels generalizing depth with
  | zero =>
    funext position name extra
    rw [including, if_pos (by omega)]
    rfl
  | succ levels ih =>
    funext position name extra
    rw [including, if_neg (by omega)]
    simp only [Template.inclusion, Template.insertWith, ih (depth + 1) (by omega)]
    refine bind_congr fun t => bind_congr fun ctx => ?_
    rw [write_rendered, Program.run_eq_interpret]

/-! ## Programs do what their instructions say -/

end Stencil
