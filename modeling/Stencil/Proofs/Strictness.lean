import Stencil.Proofs.Lockstep

/-!
# Strict contexts

In a strict context a variable without a value is a failure, and otherwise it is nil. That is all the difference it
makes: a strict evaluation fails for a variable without a value or equals the lenient one (`Script.Expr.eval_strict`),
and so does a render, with all that it includes (`strict_eq_lenient_or_undefined`).
-/

namespace Stencil

open Script (EvalError Expr Scope)

/-! ## Expressions -/

namespace Script

/-- The failure is that a variable has no value. -/
def Lacks (member? : String → Option Value) (e : EvalError) : Prop := ∃ name, e = .undefined name ∧ member? name = none

theorem Scope.lookup_strict (scope : Scope) (name : String) :
    Tracks (Lacks scope.member?) (Scope.lookup { scope with strict := true } name)
      (Scope.lookup { scope with strict := false } name) := by
  unfold Scope.lookup
  dsimp only
  rcases h : scope.member? name with _ | v
  · exact .inr ⟨_, rfl, name, rfl, h⟩
  · exact .refl _

namespace Expr

mutual

/-- **A strict evaluation equals the lenient one,** unless it fails for a variable without a value. -/
theorem eval_strict (scope : Scope) : ∀ e : Expr,
    Tracks (Lacks scope.member?) (e.eval { scope with strict := true }) (e.eval { scope with strict := false })
  | literal v => .refl _
  | var name => scope.lookup_strict name
  | list items => (evalAll_strict scope items).bind fun _ => .refl _
  | map entries => (evalEntries_strict scope entries).bind fun _ => .refl _
  | member base name => (eval_strict scope base).bind fun _ => .refl _
  | index base place => (eval_strict scope base).bind fun _ => (eval_strict scope place).bind fun _ => .refl _
  | unary .not operand => (eval_strict scope operand).bind fun _ => .refl _
  | unary .neg operand => (eval_strict scope operand).bind fun _ => .refl _
  | binary .and left right => by
    refine (eval_strict scope left).bind fun v => ?_
    by_cases h : v.truthy = true
    · rw [if_pos h, if_pos h]
      exact eval_strict scope right
    · rw [if_neg h, if_neg h]
      exact .refl _
  | binary .or left right => by
    refine (eval_strict scope left).bind fun v => ?_
    by_cases h : v.truthy = true
    · rw [if_pos h, if_pos h]
      exact .refl _
    · rw [if_neg h, if_neg h]
      exact eval_strict scope right
  | binary (.arithmetic op) left right =>
    (eval_strict scope left).bind fun _ => (eval_strict scope right).bind fun _ => .refl _
  | binary (.comparison op) left right =>
    (eval_strict scope left).bind fun _ => (eval_strict scope right).bind fun _ => .refl _
  | call name args => (evalAll_strict scope args).bind fun _ => .refl _

theorem evalAll_strict (scope : Scope) : ∀ es : List Expr,
    Tracks (Lacks scope.member?) (evalAll { scope with strict := true } es) (evalAll { scope with strict := false } es)
  | [] => .refl _
  | e :: es => (eval_strict scope e).bind fun _ => (evalAll_strict scope es).bind fun _ => .refl _

theorem evalEntries_strict (scope : Scope) : ∀ entries : List (String × Expr),
    Tracks (Lacks scope.member?) (evalEntries { scope with strict := true } entries)
      (evalEntries { scope with strict := false } entries)
  | [] => .refl _
  | (_, e) :: entries => (eval_strict scope e).bind fun _ => (evalEntries_strict scope entries).bind fun _ => .refl _

end

end Expr

end Script

/-! ## Renders -/

/-- Two contexts with one target that differ in that the first one is strict and the second one is not. -/
structure Context.Stricter (target : String → Option Value) (c c' : Context) : Prop where
  eq : c = { c' with strict := true }
  lenient : c'.strict = false
  target : c'.target = target

/-- A render changes nothing of that. -/
theorem Context.stricter_bond (target : String → Option Value) :
    Context.Bond (Script.Lacks target) (Context.Stricter target) where
  eval := by
    rintro _ c ⟨rfl, hlenient, rfl⟩ e
    have hscope : c.scope = { c.scope with strict := false } := by rw [scope, hlenient]
    rcases e.eval_strict c.scope with heq | ⟨err, herr, name, rfl, hname⟩
    · rw [← hscope] at heq
      exact .inl heq
    · exact .inr ⟨_, herr, name, rfl, (Option.or_eq_none_iff.mp hname).2⟩
  buffer := by rintro _ c ⟨rfl, -, -⟩; rfl
  escape := by rintro _ c ⟨rfl, -, -⟩; rfl
  depth := by rintro _ c ⟨rfl, -, -⟩; rfl
  write := by rintro _ c ⟨rfl, hlenient, htarget⟩ text; exact ⟨rfl, hlenient, htarget⟩
  clear := by rintro _ c ⟨rfl, hlenient, htarget⟩; exact ⟨rfl, hlenient, htarget⟩
  setLocal := by rintro _ c ⟨rfl, hlenient, htarget⟩ name v; exact ⟨rfl, hlenient, htarget⟩
  derive := by rintro _ c ⟨rfl, hlenient, htarget⟩ extra; exact ⟨rfl, hlenient, htarget⟩
  restore := by
    rintro _ c _ before ⟨rfl, -, -⟩ ⟨rfl, hlenient, htarget⟩ names
    obtain ⟨f, hf⟩ := Context.exists_restore_eq (before.saved names)
    have hsaved : saved { before with strict := true } names = before.saved names := rfl
    rw [hsaved, hf, hf]
    exact ⟨rfl, hlenient, htarget⟩

variable {σ : Type}

/-- **Strict contexts only add failures for missing variables.** A strict render fails for a variable that is no member
of the target, or it comes to the same result as a lenient one from the same context and leaves the same context but for
the policy, and the same session; the templates that are included, at whatever depth, count as well. Every expression
does the same in every scope. -/
theorem strict_eq_lenient_or_undefined (loader : Loader σ) (t : Template) (ctx : Context) (session : Session σ) :
    let strict := (t.render loader).run.run ({ ctx with strict := true }, session)
    let lenient := (t.render loader).run.run ({ ctx with strict := false }, session)
    ((∃ position name, strict.1 = .error (.render position (.evaluation (.undefined name))) ∧ ctx.target name = none) ∨
      strict.1 = lenient.1 ∧ strict.2.1 = { lenient.2.1 with strict := true } ∧ strict.2.2 = lenient.2.2) ∧
    ∀ (e : Expr) (scope : Scope),
      (∃ name, e.eval { scope with strict := true } = .error (.undefined name) ∧ scope.member? name = none) ∨
        e.eval { scope with strict := true } = e.eval { scope with strict := false } := by
  intro strict lenient
  constructor
  · have hstart : Context.Stricter ctx.target { ctx with strict := true } { ctx with strict := false } :=
      ⟨rfl, rfl, rfl⟩
    have hstep : Work.InStep (Script.Lacks ctx.target) (Context.Stricter ctx.target) Eq strict lenient :=
      (Context.stricter_bond ctx.target).render loader t _ _ session hstart
    generalize strict = x, lenient = y at hstep ⊢
    cases hstep with
    | ok hresult hctx => exact .inr ⟨congrArg Except.ok hresult, hctx.eq, rfl⟩
    | error hctx => exact .inr ⟨rfl, hctx.eq, rfl⟩
    | excused hlacks =>
      obtain ⟨name, rfl, hname⟩ := hlacks
      exact .inl ⟨_, name, rfl, hname⟩
  · intro e scope
    rcases e.eval_strict scope with heq | ⟨_, herror, name, rfl, hname⟩
    · exact .inr heq
    · exact .inl ⟨name, herror, hname⟩

end Stencil
