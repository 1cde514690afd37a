import Stencil.Proofs.Interpretation
import Stencil.Proofs.Operations

/-!
# Renders in lock step

One template is rendered twice, in contexts that are related and in the same session. As long as every change that an
operation makes keeps the relation (`Context.Tie`), the two runs do the same, operation by operation. If also the texts
that were written are the same, and derived contexts are related again (`Context.Bond`), includes at any depth do so as
well (`Context.Bond.render`). The relation may allow that the first render fails alone; which failures of evaluation are
excused in this way is up to the relation.

Work `Tracks` work if from related states on it comes to related results or to the same failure, again in related
states, or else to an excused failure. Sequences go step by step (`Tracks.bind`, `Tracks.mapM`, `Tracks.forM`), nested
code part by part (`Context.Tie.interpret`).
-/

namespace Stencil

open Script (EvalError Expr)

variable {σ α β γ κ : Type} {excused : EvalError → Prop}

/-! ## Evaluations -/

namespace Script

/-- The first evaluation comes to what the second one comes to, or to an excused failure. -/
def Tracks (excused : EvalError → Prop) (x y : Except EvalError α) : Prop := x = y ∨ ∃ e, x = .error e ∧ excused e

theorem Tracks.refl (x : Except EvalError α) : Tracks excused x x := .inl rfl

theorem Tracks.bind {x y : Except EvalError α} {f g : α → Except EvalError β} (h : Tracks excused x y)
    (hf : ∀ a, Tracks excused (f a) (g a)) : Tracks excused (x >>= f) (y >>= g) := by
  rcases h with rfl | ⟨e, rfl, he⟩
  · cases x with
    | ok a => exact hf a
    | error e => exact .refl _
  · exact .inr ⟨e, rfl, he⟩

end Script

/-! ## Work -/

namespace Work

/-- What two works come to: related results or the same failure in related states and one session, or else an excused
failure of the first one. -/
inductive InStep (excused : EvalError → Prop) (K : κ → κ → Prop) (R : α → α → Prop) :
    Except Error α × κ × Session σ → Except Error α × κ × Session σ → Prop
  | ok {a b : α} {k k' : κ} {s : Session σ} : R a b → K k k' → InStep excused K R (.ok a, k, s) (.ok b, k', s)
  | error {e : Error} {k k' : κ} {s : Session σ} : K k k' → InStep excused K R (.error e, k, s) (.error e, k', s)
  | excused {position : Position} {e : EvalError} {k : κ} {s : Session σ} {y : Except Error α × κ × Session σ} :
    excused e → InStep excused K R (.error (.render position (.evaluation e)), k, s) y

/-- From related states on and in one session, the works are in step. -/
def Tracks (excused : EvalError → Prop) (K : κ → κ → Prop) (R : α → α → Prop) (x y : Work κ σ α) : Prop :=
  ∀ k k' s, K k k' → InStep excused K R (x.run.run (k, s)) (y.run.run (k', s))

section Tracks

variable {K : κ → κ → Prop} {R : α → α → Prop} {Q : β → β → Prop}

theorem Tracks.pure {a b : α} (h : R a b) : Tracks excused K R (pure a : Work κ σ α) (pure b) :=
  fun _ _ _ hk => .ok h hk

theorem Tracks.throw (e : Error) : Tracks excused K R (throw e : Work κ σ α) (throw e) := fun _ _ _ hk => .error hk

theorem Tracks.bind {x y : Work κ σ α} {f g : α → Work κ σ β} (h : Tracks excused K R x y)
    (hf : ∀ a b, R a b → Tracks excused K Q (f a) (g b)) : Tracks excused K Q (x >>= f) (y >>= g) := by
  intro k k' s hk
  have hstep := h k k' s hk
  rcases hx : x.run.run (k, s) with ⟨r, k₁, s₁⟩
  rcases hy : y.run.run (k', s) with ⟨r', k₁', s₁'⟩
  rw [hx, hy] at hstep
  cases hstep with
  | ok hab hk₁ =>
    rw [run_bind_of_ok hx, run_bind_of_ok hy]
    exact hf _ _ hab _ _ _ hk₁
  | error hk₁ =>
    rw [run_bind_of_error hx, run_bind_of_error hy]
    exact .error hk₁
  | excused he =>
    rw [run_bind_of_error hx]
    exact .excused he

/-- What follows goes on from the same result. -/
theorem Tracks.bind_eq {x y : Work κ σ α} {f g : α → Work κ σ β} (h : Tracks excused K Eq x y)
    (hf : ∀ a, Tracks excused K Q (f a) (g a)) : Tracks excused K Q (x >>= f) (y >>= g) := by
  refine h.bind fun a b hab => ?_
  subst hab
  exact hf a

theorem Tracks.own : Tracks excused K K (own : Work κ σ κ) own := fun _ _ _ hk => .ok hk hk

theorem Tracks.update {f : κ → κ} (h : ∀ k k', K k k' → K (f k) (f k')) :
    Tracks excused K Eq (update f : Work κ σ Unit) (update f) := fun _ _ _ hk => .ok rfl (h _ _ hk)

theorem Tracks.ofLoad (x : Load σ α) : Tracks excused K Eq (Work.ofLoad x : Work κ σ α) (Work.ofLoad x) := by
  intro k k' s hk
  rcases hx : x.run.run s with ⟨r, s'⟩
  rw [run_ofLoad k hx, run_ofLoad k' hx]
  cases r with
  | ok a => exact .ok rfl hk
  | error e => exact .error hk

/-- Works on states of their own that are related. -/
theorem Tracks.ofLoad_runFrom {κ' : Type} {K' : κ' → κ' → Prop} {x y : Work κ σ α} (h : Tracks excused K R x y)
    {k k' : κ} (hk : K k k') :
    Tracks excused K' (fun a b => R a.1 b.1) (Work.ofLoad (x.runFrom k) : Work κ' σ (α × κ))
      (Work.ofLoad (y.runFrom k')) := by
  intro j j' s hj
  have hstep := h k k' s hk
  rcases hx : x.run.run (k, s) with ⟨r, k₁, s₁⟩
  rcases hy : y.run.run (k', s) with ⟨r', k₁', s₁'⟩
  rw [hx, hy] at hstep
  rw [run_ofLoad j (run_runFrom hx), run_ofLoad j' (run_runFrom hy)]
  cases hstep with
  | ok hab _ => exact .ok hab hj
  | error _ => exact .error hj
  | excused he => exact .excused he

theorem Tracks.mapM {f : γ → Work κ σ α} (hf : ∀ c, Tracks excused K Eq (f c) (f c)) (cs : List γ) :
    Tracks excused K Eq (cs.mapM f) (cs.mapM f) := by
  induction cs with
  | nil =>
    rw [List.mapM_nil]
    exact .pure rfl
  | cons c cs ih =>
    rw [List.mapM_cons]
    exact (hf c).bind_eq fun a => ih.bind_eq fun as => .pure rfl

theorem Tracks.forM {f : γ → Work κ σ Unit} (hf : ∀ c, Tracks excused K Eq (f c) (f c)) (cs : List γ) :
    Tracks excused K Eq (cs.forM f) (cs.forM f) := by
  induction cs with
  | nil => exact .pure rfl
  | cons c cs ih => exact (hf c).bind_eq fun _ => ih

end Tracks

end Work

/-! ## Related contexts -/

/-- What locals are bound to, so that they can be given back to them. -/
def Context.saved (ctx : Context) (names : List String) : List (String × Option Value) :=
  names.map fun name => (name, Bindings.get? ctx.locals name)

/-- A relation of contexts that goes along with all that operations do to them. -/
structure Context.Tie (excused : EvalError → Prop) (K : Context → Context → Prop) : Prop where
  eval : ∀ {c c'}, K c c' → ∀ e : Expr, Script.Tracks excused (e.eval c.scope) (e.eval c'.scope)
  escape : ∀ {c c'}, K c c' → c.escape = c'.escape
  write : ∀ {c c'}, K c c' → ∀ text, K (c.write text) (c'.write text)
  setLocal : ∀ {c c'}, K c c' → ∀ name v, K (c.setLocal name v) (c'.setLocal name v)
  restore : ∀ {c c' before before'}, K before before' → K c c' → ∀ names,
    K (c.restore (before.saved names)) (c'.restore (before'.saved names))

/-- A relation of contexts that goes along with all that a render does to them. -/
structure Context.Bond (excused : EvalError → Prop) (K : Context → Context → Prop) : Prop extends
    Context.Tie excused K where
  buffer : ∀ {c c'}, K c c' → c.buffer = c'.buffer
  depth : ∀ {c c'}, K c c' → c.depth = c'.depth
  clear : ∀ {c c'}, K c c' → K { c with buffer := "" } { c' with buffer := "" }
  derive : ∀ {c c'}, K c c' → ∀ extra, K (c.derive extra) (c'.derive extra)

namespace Context.Tie

variable {K : Context → Context → Prop} (h : Context.Tie excused K)

include h

theorem bind {c c' : Context} (hc : K c c') (pass : List (String × Value)) : K (c.bind pass) (c'.bind pass) := by
  induction pass generalizing c c' with
  | nil => exact hc
  | cons entry pass ih => exact ih (h.setLocal hc entry.1 entry.2)

theorem evaluateAt (position : Position) (e : Expr) :
    Work.Tracks excused K Eq (evaluateAt position e : Run σ Value) (evaluateAt position e) := by
  refine Work.Tracks.own.bind fun c c' hc => ?_
  rcases h.eval hc e with heq | ⟨err, herr, hexcused⟩
  · rw [heq]
    cases e.eval c'.scope with
    | ok v => exact .pure rfl
    | error err => exact .throw _
  · rw [herr]
    exact fun _ _ _ _ => .excused hexcused

/-- Nested code does the same in related contexts. -/
theorem interpret {position : Nat → Position} {inclusion : Inclusion σ}
    (hi : ∀ p name extra, Work.Tracks excused K Eq (inclusion p name extra) (inclusion p name extra)) (c : Code) :
    Work.Tracks excused K Eq (c.interpret position inclusion) (c.interpret position inclusion) := by
  have hupdate {f : Context → Context} (hf : ∀ {c c'}, K c c' → K (f c) (f c')) :
      Work.Tracks excused K Eq (Work.update f : Run σ Unit) (Work.update f) := .update fun _ _ => hf
  induction c with
  | done => exact .pure rfl
  | literal place text next ih => exact (hupdate fun hc => h.write hc text).bind_eq fun _ => ih
  | emit place e escaped next ih =>
    refine (h.evaluateAt _ e).bind_eq fun v => (hupdate fun {c c'} hc => ?_).bind_eq fun _ => ih
    rw [h.escape hc]
    exact h.write hc _
  | assign place name e next ih =>
    exact (h.evaluateAt _ e).bind_eq fun v => (hupdate fun hc => h.setLocal hc name v).bind_eq fun _ => ih
  | includes place name extra next ih =>
    refine (h.evaluateAt _ name).bind_eq fun v => ?_
    refine (Work.Tracks.mapM (fun entry => ?_) extra).bind_eq fun values => (hi _ _ _).bind_eq fun _ => ih
    exact (h.evaluateAt _ entry.2).bind_eq fun v => .pure rfl
  | eval place e next ih => exact (h.evaluateAt _ e).bind_eq fun _ => ih
  | ifThen place test body next ihBody ih =>
    refine (h.evaluateAt _ test).bind_eq fun v => ?_
    split
    · exact ihBody.bind_eq fun _ => ih
    · exact ih
  | ifElse place test body elsePlace alternative next ihBody ihAlternative ih =>
    refine (h.evaluateAt _ test).bind_eq fun v => ?_
    split
    · exact ihBody.bind_eq fun _ => ih
    · exact ihAlternative.bind_eq fun _ => ih
  | loop place vars iterable body endPlace next ihBody ih =>
    refine (h.evaluateAt _ iterable).bind_eq fun v => ?_
    rcases vars.passes v with e | _ | ⟨pass, passes⟩
    · exact (Work.Tracks.throw (R := Eq) _).bind_eq fun _ => ih
    · exact ih
    · refine Work.Tracks.own.bind fun before before' hbefore => ?_
      refine (Work.Tracks.forM (fun pass => ?_) (pass :: passes)).bind_eq fun _ => ?_
      · exact (hupdate fun hc => h.bind hc pass).bind_eq fun _ => ihBody
      · refine Work.Tracks.bind (R := Eq) (fun c c' s hc => ?_) fun _ _ _ => ih
        exact .ok rfl (h.restore hbefore hc vars.names)

theorem run {inclusion : Inclusion σ}
    (hi : ∀ p name extra, Work.Tracks excused K Eq (inclusion p name extra) (inclusion p name extra)) (p : Program) :
    Work.Tracks excused K Eq (p.run inclusion) (p.run inclusion) := by
  rw [Program.run_eq_interpret]
  exact h.interpret hi p.code

end Context.Tie

namespace Context.Bond

variable {K : Context → Context → Prop} (h : Context.Bond excused K)

include h

theorem renderWith {inclusion : Inclusion σ}
    (hi : ∀ p name extra, Work.Tracks excused K Eq (inclusion p name extra) (inclusion p name extra)) (t : Template) :
    Work.Tracks excused K Eq (t.renderWith inclusion) (t.renderWith inclusion) := by
  intro c c' s hc
  have hstep := h.toTie.run hi t.program c c' s hc
  rcases hx : (t.program.run inclusion).run.run (c, s) with ⟨r, d, a⟩
  rcases hy : (t.program.run inclusion).run.run (c', s) with ⟨r', d', a'⟩
  rw [hx, hy] at hstep
  rw [Template.run_renderWith hx, Template.run_renderWith hy]
  cases hstep with
  | ok _ hd => exact .ok (h.buffer hd) (h.clear hd)
  | error hd => exact .error (h.clear hd)
  | excused he => exact .excused he

/-- Inclusions of so many levels. -/
theorem inclusion (loader : Loader σ) (levels : Nat) (position : Position) (name : String) (extra : Bindings Value) :
    Work.Tracks excused K Eq (Template.inclusion loader levels position name extra)
      (Template.inclusion loader levels position name extra) := by
  induction levels generalizing position name extra with
  | zero => exact .throw _
  | succ levels ih =>
    refine (Work.Tracks.ofLoad (loader.template name)).bind_eq fun t => ?_
    refine Work.Tracks.own.bind fun c c' hc => ?_
    refine ((h.renderWith ih t).ofLoad_runFrom (h.derive hc extra)).bind fun r r' hr => ?_
    obtain ⟨output, inner⟩ := r
    obtain ⟨output', inner'⟩ := r'
    cases hr
    exact .update fun _ _ hd => h.write hd output

/-- **In related contexts a template renders in lock step.** -/
theorem render (loader : Loader σ) (t : Template) :
    Work.Tracks excused K Eq (t.render loader) (t.render loader) := by
  refine Work.Tracks.own.bind fun c c' hc => ?_
  rw [h.depth hc]
  exact h.renderWith (h.inclusion loader _) t

end Context.Bond

end Stencil
