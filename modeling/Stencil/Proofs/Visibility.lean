import Stencil.Proofs.Lockstep

/-!
# What a render sees of its variables

A variable is a local or a member of the target. A render reads variables through both, but loops save and restore
locals only, so what is restored depends on where a variable was kept. It makes no difference to what is seen: contexts
with the same variables render the same and have the same variables afterwards, however these are divided between locals
and target (`render_eq_of_same_variables`).
-/

namespace Stencil

variable {σ : Type}

/-! ## Variables -/

namespace Context

theorem member?_setLocal (ctx : Context) (name : String) (v : Value) (other : String) :
    (ctx.setLocal name v).member? other = if name = other then some v else ctx.member? other := by
  unfold member? setLocal
  dsimp only
  rw [Bindings.get?_set]
  split <;> rfl

/-- The locals that are given back are as they were before, and the others stay. -/
theorem get?_restore (before ctx : Context) (names : List String) (name : String) :
    Bindings.get? (ctx.restore (before.saved names)).locals name =
      if name ∈ names then Bindings.get? before.locals name else Bindings.get? ctx.locals name := by
  induction names generalizing ctx with
  | nil => rfl
  | cons first names ih =>
    have hfirst (next : Context) (hnext : ∀ other, Bindings.get? next.locals other =
        if first = other then Bindings.get? before.locals first else Bindings.get? ctx.locals other) :
        Bindings.get? (next.restore (before.saved names)).locals name =
          if name ∈ first :: names then Bindings.get? before.locals name else Bindings.get? ctx.locals name := by
      rw [ih next, hnext name]
      by_cases hname : first = name
      · subst hname
        simp
      · simp [hname, Ne.symm hname]
    rcases hsaved : Bindings.get? before.locals first with _ | v
    · have hnext := hfirst (ctx.removeLocal first) fun other => by rw [removeLocal, Bindings.get?_erase, hsaved]
      simpa [saved, restore, hsaved] using hnext
    · have hnext := hfirst (ctx.setLocal first v) fun other => by rw [setLocal, Bindings.get?_set, hsaved]
      simpa [saved, restore, hsaved] using hnext

/-- Behind a loop, its variables are what they were before it. -/
theorem member?_restore {before ctx : Context} (h : ctx.target = before.target) (names : List String) (name : String) :
    (ctx.restore (before.saved names)).member? name =
      if name ∈ names then before.member? name else ctx.member? name := by
  obtain ⟨f, hf⟩ := exists_restore_eq (before.saved names)
  have htarget : (ctx.restore (before.saved names)).target = ctx.target := by rw [hf]
  rw [member?, get?_restore, htarget]
  split
  · rw [h]
    rfl
  · rfl

/-- Further locals stand in front of the variables that are there. -/
theorem member?_derive {c c' : Context} (h : ∀ name, c.member? name = c'.member? name) (extra : Bindings Value)
    (name : String) : (c.derive extra).member? name = (c'.derive extra).member? name := by
  induction extra generalizing c c' with
  | nil => exact h name
  | cons entry extra ih =>
    have hset (other : String) :
        (c.setLocal entry.1 entry.2).member? other = (c'.setLocal entry.1 entry.2).member? other := by
      rw [member?_setLocal, member?_setLocal, h]
    exact ih hset

end Context

/-! ## Contexts with the same variables -/

/-- The contexts have the same variables, and all else but the locals and the target is the same. -/
structure Context.SameView (c c' : Context) : Prop where
  member : ∀ name, c.member? name = c'.member? name
  buffer : c.buffer = c'.buffer
  escape : c.escape = c'.escape
  strict : c.strict = c'.strict
  depth : c.depth = c'.depth

/-- The same, of contexts with the given targets. -/
structure Context.Views (target target' : String → Option Value) (c c' : Context) : Prop where
  left : c.target = target
  right : c'.target = target'
  same : c.SameView c'

/-- A render changes nothing of that. -/
theorem Context.views_bond (target target' : String → Option Value) :
    Context.Bond (fun _ => False) (Context.Views target target') where
  eval := by
    rintro c c' ⟨-, -, hsame⟩ e
    have hscope : c.scope = c'.scope := by
      rw [scope, scope, funext hsame.member, hsame.strict, hsame.escape]
    exact .inl (congrArg e.eval hscope)
  buffer h := h.same.buffer
  escape h := h.same.escape
  depth h := h.same.depth
  write h text := ⟨h.left, h.right, h.same.member, congrArg (· ++ text) h.same.buffer, h.same.escape, h.same.strict,
    h.same.depth⟩
  clear h := ⟨h.left, h.right, h.same.member, rfl, h.same.escape, h.same.strict, h.same.depth⟩
  setLocal h name v := by
    refine ⟨h.left, h.right, fun other => ?_, h.same.buffer, h.same.escape, h.same.strict, h.same.depth⟩
    rw [member?_setLocal, member?_setLocal, h.same.member]
  derive h extra := ⟨h.left, h.right, member?_derive h.same.member extra, rfl, h.same.escape, h.same.strict,
    congrArg (· + 1) h.same.depth⟩
  restore {c c' before before'} hbefore h names := by
    have hmember (name : String) : (c.restore (before.saved names)).member? name =
        (c'.restore (before'.saved names)).member? name := by
      rw [member?_restore (h.left.trans hbefore.left.symm), member?_restore (h.right.trans hbefore.right.symm),
        hbefore.same.member, h.same.member]
    obtain ⟨f, hf⟩ := exists_restore_eq (before.saved names)
    obtain ⟨f', hf'⟩ := exists_restore_eq (before'.saved names)
    rw [hf, hf'] at hmember ⊢
    exact ⟨h.left, h.right, hmember, h.same.buffer, h.same.escape, h.same.strict, h.same.depth⟩

/-! ## Main result -/

/-- **A render sees nothing of its variables but their values.** From contexts with the same variables it comes to the
same text or to the same failure, and the contexts that it leaves have the same variables again. So the members of a
value can be passed as the target or as the locals. -/
theorem render_eq_of_same_variables (loader : Loader σ) (t : Template) (session : Session σ) :
    (∀ ctx ctx' : Context, ctx.SameView ctx' →
      let one := (t.render loader).run.run (ctx, session)
      let other := (t.render loader).run.run (ctx', session)
      one.1 = other.1 ∧ one.2.2 = other.2.2 ∧ one.2.1.SameView other.2.1) ∧
    ∀ (v : Value) (escape : String → String) (strict : Bool),
      ((t.render loader).run.run (.fresh v.member? [] escape strict, session)).1 =
        ((t.render loader).run.run (.fresh (fun _ => none) v.entries escape strict, session)).1 := by
  have hsame (ctx ctx' : Context) (h : ctx.SameView ctx') :
      let one := (t.render loader).run.run (ctx, session)
      let other := (t.render loader).run.run (ctx', session)
      one.1 = other.1 ∧ one.2.2 = other.2.2 ∧ one.2.1.SameView other.2.1 := by
    intro one other
    have hstep : Work.InStep (fun _ => False) (Context.Views ctx.target ctx'.target) Eq one other :=
      (Context.views_bond ctx.target ctx'.target).render loader t ctx ctx' session ⟨rfl, rfl, h⟩
    generalize one = x, other = y at hstep ⊢
    cases hstep with
    | ok hresult hctx => exact ⟨congrArg Except.ok hresult, rfl, hctx.same⟩
    | error hctx => exact ⟨rfl, rfl, hctx.same⟩
    | excused hfalse => exact hfalse.elim
  refine ⟨hsame, fun v escape strict => ?_⟩
  have hview : (Context.fresh v.member? [] escape strict).SameView (.fresh (fun _ => none) v.entries escape strict) :=
    ⟨fun _ => Option.or_none.symm, rfl, rfl, rfl, rfl⟩
  exact (hsame _ _ hview).1

/-- A loop over a variable that is a member of the target in one context and a local in the other. -/
theorem render_eq_of_same_variables_loop :
    let page := "%\x7b for x in [1, 2] \x7d%\x7b y = x \x7d%\x7b include 'part', x: 0 \x7d%\x7b end \x7d$\x7b x \x7d"
    let loader : Loader Unit := .direct (.inMemory .firstPass [("part", "<$\x7b y \x7d>"), ("page", page)])
    let ctx := Context.fresh (Value.map [("x", .string "a")]).member? [] id true
    let ctx' := Context.fresh (fun _ => none) [("x", .string "a")] id true
    ∃ t session, (loader.template "page").run.run ⟨(), []⟩ = (.ok t, session) ∧ ctx.SameView ctx' ∧
      ((t.render loader).run.run (ctx, session)).1 = ((t.render loader).run.run (ctx', session)).1 ∧
      ((t.render loader).run.run (ctx, session)).2.1.SameView ((t.render loader).run.run (ctx', session)).2.1 := by
  intro page loader ctx ctx'
  obtain ⟨t, session, hrun, -⟩ := exists_run_eq_ok (s := ⟨(), []⟩) (x := loader.template "page") (g := Template.name)
    (b := "page") (by decide +kernel)
  have hview : ctx.SameView ctx' := ⟨fun _ => Option.or_none.symm, rfl, rfl, rfl, rfl⟩
  obtain ⟨hresult, -, hafter⟩ := (render_eq_of_same_variables loader t session).1 ctx ctx' hview
  exact ⟨t, session, hrun, hview, hresult, hafter⟩

end Stencil
