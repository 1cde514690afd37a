import Stencil.Machine
import Stencil.Proofs.Outcome

/-!
# What operations do

An operation evaluates expressions, which may fail, and changes the context in the ways of its kind (`Op.Changes`). A
property of work that goes along with this (`Program.Admits`) is one of the operation (`Program.Admits.perform`). So
what the changes keep is kept by the operation (`Program.admits_preserves`), and the depth of a context stays as it is
(`Program.keeps_depth`), since none of the changes touches it.
-/

namespace Stencil

open Script (Expr LoopVars)

variable {σ α β : Type}

/-! ## What work leaves alone -/

namespace Work

variable {κ γ : Type} {I : κ → Prop} {f : κ → γ}

/-- The work keeps an invariant of its state, whether it succeeds or fails. -/
def Preserves (I : κ → Prop) (x : Work κ σ α) : Prop := ∀ k session, I k → I (x.run.run (k, session)).2.1

theorem Preserves.bind {x : Work κ σ α} {g : α → Work κ σ β} (hx : Preserves I x) (hg : ∀ a, Preserves I (g a)) :
    Preserves I (x >>= g) := by
  intro k session h
  have hk := hx k session h
  rcases hrun : x.run.run (k, session) with ⟨r, k', session'⟩
  rw [hrun] at hk
  cases r with
  | ok a =>
    rw [run_bind_of_ok hrun]
    exact hg a k' session' hk
  | error e =>
    rw [run_bind_of_error hrun]
    exact hk

/-- The work leaves something of its state alone. -/
def Keeps (f : κ → γ) (x : Work κ σ α) : Prop := ∀ k session, f (x.run.run (k, session)).2.1 = f k

theorem Keeps.pure (a : α) : Keeps f (pure a : Work κ σ α) := fun _ _ => rfl

theorem Keeps.throw (e : Error) : Keeps f (throw e : Work κ σ α) := fun _ _ => rfl

theorem Keeps.own : Keeps f (own : Work κ σ κ) := fun _ _ => rfl

theorem Keeps.update {g : κ → κ} (h : ∀ k, f (g k) = f k) : Keeps f (update g : Work κ σ Unit) := fun k _ => h k

theorem Keeps.bind {x : Work κ σ α} {g : α → Work κ σ β} (hx : Keeps f x) (hg : ∀ a, Keeps f (g a)) :
    Keeps f (x >>= g) := by
  intro k session
  have hsame {γ : Type} {y : Work κ σ γ} (hy : Keeps f y) : Preserves (fun k' => f k' = f k) y :=
    fun k' session' hk' => (hy k' session').trans hk'
  exact (hsame hx).bind (fun a => hsame (hg a)) k session rfl

end Work

/-! ## What changes a context -/

namespace Context

/-- Binding locals changes nothing but the locals. -/
theorem exists_bind_eq (ctx : Context) (pass : List (String × Value)) :
    ∃ locals, ctx.bind pass = { ctx with locals := locals } := by
  induction pass generalizing ctx with
  | nil => exact ⟨ctx.locals, rfl⟩
  | cons entry pass ih => exact ih (ctx.setLocal entry.1 entry.2)

/-- Giving locals back what they were bound to changes the locals, and in all contexts in the same way. -/
theorem exists_restore_eq (saved : List (String × Option Value)) :
    ∃ f : Bindings Value → Bindings Value,
      ∀ ctx : Context, ctx.restore saved = { ctx with locals := f ctx.locals } := by
  induction saved with
  | nil => exact ⟨id, fun _ => rfl⟩
  | cons entry saved ih =>
    obtain ⟨name, value⟩ := entry
    obtain ⟨f, hf⟩ := ih
    cases value with
    | none => exact ⟨fun locals => f (Bindings.erase name locals), fun ctx => hf (ctx.removeLocal name)⟩
    | some v => exact ⟨fun locals => f (Bindings.set name v locals), fun ctx => hf (ctx.setLocal name v)⟩

theorem depth_bind (ctx : Context) (pass : List (String × Value)) : (ctx.bind pass).depth = ctx.depth := by
  obtain ⟨locals, h⟩ := ctx.exists_bind_eq pass
  rw [h]

theorem depth_restore (ctx : Context) (saved : List (String × Option Value)) :
    (ctx.restore saved).depth = ctx.depth := by
  obtain ⟨f, hf⟩ := exists_restore_eq saved
  rw [hf]

end Context

/-- What an operation makes of a context, whatever values its expressions have. -/
inductive Op.Changes : Op → (Context → Context) → Prop
  | literal (text : String) : Changes (.literal text) (·.write text)
  | emit (e : Expr) (escaped : Bool) (v : Value) :
    Changes (.emit e escaped) fun ctx => ctx.write (if escaped then ctx.escape v.text else v.text)
  | assign (name : String) (e : Expr) (v : Value) : Changes (.assign name e) (·.setLocal name v)
  | enter (vars : LoopVars) (iterable : Expr) (ahead : Nat) (pass : List (String × Value)) :
    Changes (.loopStart vars iterable ahead) (·.bind pass)
  | again (back : Nat) (pass : List (String × Value)) : Changes (.loopNext back) (·.bind pass)
  | leave (back : Nat) (saved : List (String × Option Value)) : Changes (.loopNext back) (·.restore saved)

theorem Op.Changes.depth_eq {op : Op} {g : Context → Context} (h : op.Changes g) (ctx : Context) :
    (g ctx).depth = ctx.depth := by
  cases h with
  | literal text => rfl
  | emit e escaped v => rfl
  | assign name e v => rfl
  | enter vars iterable ahead pass => exact ctx.depth_bind pass
  | again back pass => exact ctx.depth_bind pass
  | leave back saved => exact ctx.depth_restore saved

/-! ## What operations are made up of -/

namespace Program

variable (p : Program) (op : LinkedOp)

/-- The name and the further locals that an inclusion asks for. -/
def asked (name : Expr) (extra : List (String × Expr)) : Run σ (String × Bindings Value) := do
  let name ← p.evaluate op name
  let extra ← extra.mapM fun (key, e) => return (key, ← p.evaluate op e)
  return (name.text, Bindings.ofList extra)

/-- What the operation at the start of a loop does: it gives the passes behind the first one and the locals that are to
be restored, or nothing if there are no passes. -/
def enterLoop (vars : LoopVars) (iterable : Expr) :
    Run σ (Option (List (List (String × Value)) × List (String × Option Value))) := do
  let v ← p.evaluate op iterable
  match vars.passes v with
  | .error e => throw (p.fault op (.evaluation e))
  | .ok [] => return none
  | .ok (pass :: passes) =>
    let ctx ← Work.own
    Work.update (·.bind pass)
    return some (passes, vars.names.map fun name => (name, Bindings.get? ctx.locals name))

theorem perform_loopStart (inclusion : Inclusion σ) (frames : List Frame) (vars : LoopVars) (iterable : Expr)
    (ahead source : Nat) : p.perform inclusion frames ⟨.loopStart vars iterable ahead, source⟩ = do
      let entered ← p.enterLoop ⟨.loopStart vars iterable ahead, source⟩ vars iterable
      return entered.elim (.ahead ahead) fun loop => .enter loop.1 loop.2 := by
  simp only [perform, enterLoop, bind_assoc]
  refine bind_congr fun v => ?_
  rcases vars.passes v with e | _ | ⟨pass, passes⟩
  · rfl
  · rfl
  · simp only [bind_assoc, pure_bind]
    rfl

/-- The property of work goes along with all that the operation can be made up of. -/
structure Admits (Q : (α : Type) → Run σ α → Prop) : Prop where
  pure : ∀ {α : Type} (a : α), Q α (pure a)
  bind : ∀ {α β : Type} {x : Run σ α} {f : α → Run σ β}, Q α x → (∀ a, Q β (f a)) → Q β (x >>= f)
  own : Q Context Work.own
  change : ∀ {g : Context → Context}, op.op.Changes g → Q Unit (Work.update g)
  fault : ∀ {α : Type} (fault : RenderFault), Q α (throw (p.fault op fault))

namespace Admits

variable {p op} {Q : (α : Type) → Run σ α → Prop}

theorem mapM (h : p.Admits op Q) {f : α → Run σ β} (hf : ∀ a, Q β (f a)) (as : List α) : Q (List β) (as.mapM f) := by
  induction as with
  | nil =>
    rw [List.mapM_nil]
    exact h.pure []
  | cons a as ih =>
    rw [List.mapM_cons]
    exact h.bind (hf a) fun b => h.bind ih fun bs => h.pure (b :: bs)

theorem evaluate (h : p.Admits op Q) (e : Expr) : Q Value (p.evaluate op e) := by
  refine h.bind h.own fun ctx => ?_
  split
  · exact h.pure _
  · exact h.fault _

theorem evaluateAll (h : p.Admits op Q) (extra : List (String × Expr)) :
    Q (List (String × Value)) (extra.mapM fun (key, e) => return (key, ← p.evaluate op e)) :=
  h.mapM (fun entry => h.bind (h.evaluate entry.2) fun v => h.pure (entry.1, v)) extra

theorem asked (h : p.Admits op Q) (name : Expr) (extra : List (String × Expr)) :
    Q (String × Bindings Value) (p.asked op name extra) :=
  h.bind (h.evaluate name) fun _ => h.bind (h.evaluateAll extra) fun _ => h.pure _

theorem enterLoop (h : p.Admits op Q) {vars : LoopVars} {iterable : Expr} {ahead : Nat}
    (hop : op.op = .loopStart vars iterable ahead) :
    Q (Option (List (List (String × Value)) × List (String × Option Value))) (p.enterLoop op vars iterable) := by
  refine h.bind (h.evaluate iterable) fun v => ?_
  split
  · exact h.fault _
  · exact h.pure _
  · exact h.bind h.own fun ctx => h.bind (h.change (hop ▸ .enter ..)) fun _ => h.pure _

/-- Every operation has the property, if what is done for inclusions has it. -/
theorem perform (h : p.Admits op Q) (inclusion : Inclusion σ)
    (hinclusion : ∀ name extra, Q Unit (inclusion (p.position op) name extra)) (frames : List Frame) :
    Q Move (p.perform inclusion frames op) := by
  obtain ⟨kind, place⟩ := op
  cases kind with
  | literal text => exact h.bind (h.change (.literal text)) fun _ => h.pure _
  | emit e escaped => exact h.bind (h.evaluate e) fun v => h.bind (h.change (.emit e escaped v)) fun _ => h.pure _
  | assign name e => exact h.bind (h.evaluate e) fun v => h.bind (h.change (.assign name e v)) fun _ => h.pure _
  | includes name extra =>
    refine h.bind (h.evaluate name) fun name => ?_
    exact h.bind (h.evaluateAll extra) fun extra => h.bind (hinclusion _ _) fun _ => h.pure _
  | eval e => exact h.bind (h.evaluate e) fun _ => h.pure _
  | jumpUnless test ahead => exact h.bind (h.evaluate test) fun _ => h.pure _
  | jump ahead => exact h.pure _
  | loopStart vars iterable ahead =>
    rw [perform_loopStart]
    exact h.bind (h.enterLoop rfl) fun _ => h.pure _
  | loopNext back =>
    unfold Program.perform
    dsimp only
    split
    · exact h.fault _
    · split
      · exact h.bind (h.change (.leave ..)) fun _ => h.pure _
      · exact h.bind (h.change (.again ..)) fun _ => h.pure _

end Admits

/-- What every change keeps that the operation can make is kept by the operation. -/
theorem admits_preserves {I : Context → Prop}
    (hI : ∀ {g : Context → Context}, op.op.Changes g → ∀ {ctx}, I ctx → I (g ctx)) :
    p.Admits op fun _ x => Work.Preserves (σ := σ) I x where
  pure _ := fun _ _ h => h
  bind := .bind
  own := fun _ _ h => h
  change hg := fun _ _ h => hI hg h
  fault _ := fun _ _ h => h

/-- No operation changes the depth. -/
theorem keeps_depth : p.Admits op fun _ x => Work.Keeps (σ := σ) Context.depth x where
  pure := .pure
  bind := .bind
  own := .own
  change h := .update h.depth_eq
  fault _ := .throw _

end Program

end Stencil
