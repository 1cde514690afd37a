import Stencil.Proofs.Lockstep

/-!
# Output is only written

A run writes behind what has been written before it, and never reads it. `Context.behind` puts a text in front of what a
context has been given to write; a context and the same one behind a text are tied (`Context.behind_tie`), so a program
runs in both in lock step. What it includes renders into a buffer of its own, and there the two are the same.

The main statement is `output_write_only`.
-/

namespace Stencil

open Script (EvalError)

variable {σ : Type} {excused : EvalError → Prop}

/-- The context with a text in front of what has been written. -/
def Context.behind (b : String) (ctx : Context) : Context := { ctx with buffer := b ++ ctx.buffer }

/-- The first context is the second one behind the text. -/
def Context.Behind (b : String) (c c' : Context) : Prop := c = c'.behind b

/-- Operations do the same behind a text. -/
theorem Context.behind_tie (excused : EvalError → Prop) (b : String) : Context.Tie excused (Context.Behind b) where
  eval := by rintro _ c rfl e; exact .refl _
  escape := by rintro _ c rfl; rfl
  write := by rintro _ c rfl text; simp [Behind, behind, write, String.append_assoc]
  setLocal := by rintro _ c rfl name v; rfl
  restore := by
    rintro _ c _ before rfl rfl names
    obtain ⟨f, hf⟩ := exists_restore_eq (before.saved names)
    have hsaved : saved (before.behind b) names = before.saved names := rfl
    rw [Behind, hsaved, hf, hf]
    rfl

/-- What is included starts with nothing written, so it is the same behind a text. -/
theorem Template.inclusion_behind (b : String) (loader : Loader σ) (levels : Nat) (position : Position) (name : String)
    (extra : Bindings Value) :
    Work.Tracks excused (Context.Behind b) Eq (inclusion loader levels position name extra)
      (inclusion loader levels position name extra) := by
  cases levels with
  | zero => exact .throw _
  | succ levels =>
    refine (Work.Tracks.ofLoad (loader.template name)).bind_eq fun t => ?_
    refine Work.Tracks.own.bind fun c c' hc => ?_
    have hderive : c.derive extra = c'.derive extra := by rw [hc]; rfl
    rw [hderive]
    exact (Work.Tracks.ofLoad _).bind_eq fun (output, _) =>
      .update fun _ _ hd => (Context.behind_tie excused b).write hd output

/-- A program runs behind a text as it runs alone. -/
theorem Program.run_behind (loader : Loader σ) (levels : Nat) (p : Program) (b : String) (ctx : Context)
    (session : Session σ) :
    let alone := (p.run (Template.inclusion loader levels)).run.run (ctx, session)
    (p.run (Template.inclusion loader levels)).run.run (ctx.behind b, session) =
      (alone.1, alone.2.1.behind b, alone.2.2) := by
  intro alone
  generalize hbehind : (p.run (Template.inclusion loader levels)).run.run (ctx.behind b, session) = x
  have hstep : Work.InStep (fun _ => False) (Context.Behind b) Eq x alone :=
    hbehind ▸ (Context.behind_tie _ b).run (Template.inclusion_behind b loader levels) p (ctx.behind b) ctx session rfl
  generalize alone = y at hstep ⊢
  cases hstep with
  | ok _ hk => rw [hk]
  | error hk => rw [hk]
  | excused hfalse => exact hfalse.elim

/-- **Output is only written.** With a text written before, a program comes to the same result, the same locals and the
same session as with nothing written before, and its own text stands behind the one that was there; so it is if it
succeeds and if it fails, whatever it includes. A template gives the text that was there and its own one behind it, and
leaves nothing written in both cases. -/
theorem output_write_only (loader : Loader σ) (ctx : Context) (b : String) (session : Session σ) :
    (∀ p : Program,
      let run := (p.run (Template.inclusion loader (maxIncludes - ctx.depth))).run.run
      let alone := run ({ ctx with buffer := "" }, session)
      run ({ ctx with buffer := b }, session) =
        (alone.1, { alone.2.1 with buffer := b ++ alone.2.1.buffer }, alone.2.2)) ∧
    ∀ t : Template,
      let alone := (t.render loader).run.run ({ ctx with buffer := "" }, session)
      (t.render loader).run.run ({ ctx with buffer := b }, session) = (alone.1.map (b ++ ·), alone.2) ∧
        alone.2.1.buffer = "" := by
  have hrun (p : Program) := p.run_behind loader (maxIncludes - ctx.depth) b { ctx with buffer := "" } session
  have hbehind : Context.behind b { ctx with buffer := "" } = { ctx with buffer := b } := by simp [Context.behind]
  simp only [hbehind] at hrun
  refine ⟨hrun, ?_⟩
  intro t alone
  rcases halone : (t.program.run (Template.inclusion loader (maxIncludes - ctx.depth))).run.run
    ({ ctx with buffer := "" }, session) with ⟨r, written, session'⟩
  have hafter := hrun t.program
  rw [halone] at hafter
  have hrender : alone = _ := Template.run_render halone
  have hrender' : (t.render loader).run.run ({ ctx with buffer := b }, session) = _ := Template.run_render hafter
  rw [hrender, hrender']
  refine ⟨?_, rfl⟩
  cases r <;> rfl

end Stencil
