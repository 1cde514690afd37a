import Stencil.Proofs.Agreement
import Stencil.Proofs.Interpretation

/-!
# Rendering goes by instructions

Programs that agree do the same in every context, as long as what they include does the same (`Program.run_alike`). So
loaders whose templates agree render alike, with the same text and the same context afterwards, or with the same failure
(`Loader.render_alike`).
-/

namespace Stencil

open Script (Expr)

variable {σ : Type} {L : Lines}

/-- Inclusions that do the same for positions that agree. -/
def Inclusion.Agrees (L : Lines) (f g : Inclusion σ) : Prop :=
  ∀ (p q : Position) (name : String) (extra : Bindings Value), p.Agrees L q →
    Alike L (Work.States L Eq) Eq (f p name extra) (g q name extra)

/-! ## Programs -/

section Programs

variable {position position' : Nat → Position} {f g : Inclusion σ}

/-- The context that is there. -/
theorem alike_own_context :
    Alike L (Work.States L Eq : Context × Session σ → Context × Session σ → Prop) Eq Work.own Work.own := Work.alike_own

theorem alike_update_context (h : Context → Context) :
    Alike L (Work.States L Eq : Context × Session σ → Context × Session σ → Prop) Eq (Work.update h) (Work.update h) :=
  Work.alike_update fun _ _ hc => congrArg h hc

theorem evaluateAt_alike {p q : Position} (h : p.Agrees L q) (e : Expr) :
    Alike L (Work.States L Eq : Context × Session σ → Context × Session σ → Prop) Eq (evaluateAt p e)
      (evaluateAt q e) := by
  refine alike_own_context.bind_eq fun ctx => ?_
  split
  · exact .pure rfl
  · exact .throw (.render _ h)

/-- Nested code does the same wherever its instructions stand. -/
theorem Code.interpret_alike (hp : ∀ place, (position place).Agrees L (position' place)) (hi : Inclusion.Agrees L f g)
    (c : Code) : Alike L (Work.States L Eq) Eq (c.interpret position f) (c.interpret position' g) := by
  induction c with
  | done => exact .pure rfl
  | literal place text next ih => exact (alike_update_context _).bind_eq fun _ => ih
  | emit place e escaped next ih =>
    exact (evaluateAt_alike (hp place) e).bind_eq fun v => (alike_update_context _).bind_eq fun _ => ih
  | assign place name e next ih =>
    exact (evaluateAt_alike (hp place) e).bind_eq fun v => (alike_update_context _).bind_eq fun _ => ih
  | includes place name extra next ih =>
    refine (evaluateAt_alike (hp place) name).bind_eq fun v => ?_
    refine (Alike.mapM_same (R := Eq) extra fun entry => ?_).bind fun values _ hvalues => ?_
    · exact (evaluateAt_alike (hp place) entry.2).bind_eq fun v => .pure rfl
    · rw [eq_of_forall₂ hvalues fun _ _ h => h]
      exact (hi _ _ _ _ (hp place)).bind_eq fun _ => ih
  | eval place e next ih => exact (evaluateAt_alike (hp place) e).bind_eq fun _ => ih
  | ifThen place test body next ihBody ih =>
    refine (evaluateAt_alike (hp place) test).bind_eq fun v => ?_
    by_cases ht : v.truthy = true
    · simp only [ht, ↓reduceIte]
      exact ihBody.bind_eq fun _ => ih
    · simp only [ht, Bool.false_eq_true, ↓reduceIte]
      exact ih
  | ifElse place test body elsePlace alternative next ihBody ihAlternative ih =>
    refine (evaluateAt_alike (hp place) test).bind_eq fun v => ?_
    by_cases ht : v.truthy = true
    · simp only [ht, ↓reduceIte]
      exact ihBody.bind_eq fun _ => ih
    · simp only [ht, Bool.false_eq_true, ↓reduceIte]
      exact ihAlternative.bind_eq fun _ => ih
  | loop place vars iterable body endPlace next ihBody ih =>
    refine (evaluateAt_alike (hp place) iterable).bind_eq fun v => ?_
    rcases vars.passes v with e | _ | ⟨pass, passes⟩
    · exact (Alike.throw (.render _ (hp place))).bind (R := Eq) fun _ _ _ => ih
    · exact ih
    · refine alike_own_context.bind_eq fun before => ?_
      have hpasses : List.Forall₂ Eq (pass :: passes) (pass :: passes) := List.forall₂_refl _
      refine (Alike.forM hpasses fun p _ hp => ?_).bind_eq fun _ => (alike_update_context _).bind_eq fun _ => ih
      subst hp
      exact (alike_update_context _).bind_eq fun _ => ihBody

/-- Positions by place. -/
theorem positionIn_agrees (origin : String) {as bs : List Located} (h : List.Forall₂ (Located.Agrees L) as bs)
    (place : Nat) : (positionIn origin as place).Agrees L (positionIn origin bs place) := by
  unfold positionIn
  induction h generalizing place with
  | nil => exact ⟨rfl, L.refl _⟩
  | cons hab _ ih =>
    cases place with
    | zero => exact hab.position
    | succ place => exact ih place

/-- **Running goes by instructions.** -/
theorem Program.run_alike {p q : Program} (h : p.Agrees L q) (hi : Inclusion.Agrees L f g) :
    Alike L (Work.States L Eq) Eq (p.run f) (q.run g) := by
  rw [Program.run_eq_interpret, Program.run_eq_interpret, Program.interpret, Program.interpret, h.code, h.origin]
  exact Code.interpret_alike (positionIn_agrees q.origin h.instructions) hi q.code

end Programs

/-! ## Templates -/

section Templates

variable {A B : Loader σ}

/-- Whatever is asked for, the templates agree. -/
def Loader.Agrees (L : Lines) (A B : Loader σ) : Prop :=
  ∀ name, Alike L (Session.Agrees L) (Template.Agrees L) (A.template name) (B.template name)

theorem Template.renderWith_alike {t u : Template} (h : t.Agrees L u) {f g : Inclusion σ}
    (hi : Inclusion.Agrees L f g) : Alike L (Work.States L Eq) Eq (t.renderWith f) (u.renderWith g) := by
  intro ⟨ctx, s⟩ ⟨ctx', s'⟩ hs
  obtain ⟨hr, hs'⟩ := Program.run_alike h.program hi (ctx, s) (ctx', s') hs
  rcases hx : (t.program.run f).run.run (ctx, s) with ⟨r, c, a⟩
  rcases hy : (u.program.run g).run.run (ctx', s') with ⟨r', c', a'⟩
  rw [hx, hy] at hr hs'
  obtain ⟨rfl, ha⟩ := hs'
  rw [Template.run_renderWith hx, Template.run_renderWith hy]
  exact ⟨hr.map fun _ _ _ => rfl, rfl, ha⟩

/-- Inclusions of so many levels. -/
theorem Template.inclusion_agrees (h : Loader.Agrees L A B) (levels : Nat) :
    Inclusion.Agrees L (Template.inclusion A levels) (Template.inclusion B levels) := by
  induction levels with
  | zero => exact fun p q name _ hp => .throw (.render _ hp)
  | succ levels ih =>
    intro p q name extra hp
    refine (h name).ofLoad.bind fun t u ht => ?_
    refine alike_own_context.bind_eq fun ctx => ?_
    refine ((Template.renderWith_alike ht ih).runFrom rfl).ofLoad.bind fun r r' hr => ?_
    obtain ⟨output, inner⟩ := r
    obtain ⟨output', inner'⟩ := r'
    obtain ⟨rfl, -⟩ := hr
    exact alike_update_context _

/-- **Rendering goes by templates.** -/
theorem Loader.render_alike (h : Loader.Agrees L A B) (name : String) :
    Alike L (Work.States L Eq) Eq (A.render name) (B.render name) := by
  refine (h name).ofLoad.bind fun t u ht => ?_
  refine alike_own_context.bind_eq fun ctx => ?_
  exact Template.renderWith_alike ht (Template.inclusion_agrees h _)

end Templates

end Stencil
