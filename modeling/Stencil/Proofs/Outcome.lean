import Stencil.Source

/-!
# Outcomes

Computations that may fail are made up by sequencing. What a sequence comes to is said by the lemmas here, so that a
proof takes a computation apart without opening it.
-/

namespace Stencil

/-! ## Results and failures -/

section Except

variable {ε α β : Type}

theorem ok_bind {a : α} {f : α → Except ε β} : (Except.ok a >>= f) = f a := rfl

theorem eq_ok_of_toOption {x : Except ε α} {a : α} (h : x.toOption = some a) : x = .ok a := by
  cases x with
  | error e => cases h
  | ok b => rw [Option.some.inj h]

/-- The failure, if it is one. -/
def failure? : Except ε α → Option ε
  | .ok _ => none
  | .error e => some e

/-- A sequence succeeds exactly if its parts do. -/
theorem bind_eq_ok_iff {x : Except ε α} {f : α → Except ε β} {b : β} :
    x >>= f = .ok b ↔ ∃ a, x = .ok a ∧ f a = .ok b := by
  cases x with
  | error e => exact ⟨nofun, nofun⟩
  | ok a => exact ⟨fun h => ⟨a, rfl, h⟩, fun ⟨_, ha, h⟩ => by cases ha; exact h⟩

theorem bind_pure_eq_ok_iff {x : Except ε α} {f : α → β} {b : β} :
    (do return f (← x)) = Except.ok b ↔ ∃ a, x = .ok a ∧ f a = b := by
  rw [bind_eq_ok_iff]
  simp [pure, Except.pure]

end Except

/-! ## Computations with a state -/

section State

variable {τ α β : Type} {x : ExceptT Error (StateM τ) α} {f : α → ExceptT Error (StateM τ) β} {s s' : τ}

theorem run_bind_of_ok {a : α} (h : x.run.run s = (.ok a, s')) : (x >>= f).run.run s = (f a).run.run s' := by
  simp only [ExceptT.run_bind, StateT.run_bind, h]
  rfl

theorem run_bind_of_error {e : Error} (h : x.run.run s = (.error e, s')) : (x >>= f).run.run s = (.error e, s') := by
  simp only [ExceptT.run_bind, StateT.run_bind, h]
  rfl

/-- A sequence succeeds only if its parts do. -/
theorem of_run_bind_eq_ok {b : β} {s'' : τ} (h : (x >>= f).run.run s = (.ok b, s'')) :
    ∃ a s', x.run.run s = (.ok a, s') ∧ (f a).run.run s' = (.ok b, s'') := by
  rcases hx : x.run.run s with ⟨r, s'⟩
  cases r with
  | error e =>
    rw [run_bind_of_error hx] at h
    cases h
  | ok a =>
    rw [run_bind_of_ok hx] at h
    exact ⟨a, s', rfl, h⟩

theorem run_tryCatch_of_ok {a : α} {f : Error → ExceptT Error (StateM τ) α} (h : x.run.run s = (.ok a, s')) :
    (tryCatch x f).run.run s = (.ok a, s') := by
  have h' : x s = (.ok a, s') := h
  simp only [tryCatch, tryCatchThe, MonadExceptOf.tryCatch, ExceptT.tryCatch, ExceptT.run, ExceptT.mk, StateT.run, bind,
    StateT.bind, h']
  rfl

/-- A failure is caught in the state in which it happened. -/
theorem run_tryCatch_of_error {e : Error} {f : Error → ExceptT Error (StateM τ) α}
    (h : x.run.run s = (.error e, s')) : (tryCatch x f).run.run s = (f e).run.run s' := by
  have h' : x s = (.error e, s') := h
  simp only [tryCatch, tryCatchThe, MonadExceptOf.tryCatch, ExceptT.tryCatch, ExceptT.run, ExceptT.mk, StateT.run, bind,
    StateT.bind, h']

/-- A run that is seen to give something has succeeded. -/
theorem exists_run_eq_ok {g : α → β} {b : β} (h : (x.run.run s).1.toOption.map g = some b) :
    ∃ a s', x.run.run s = (.ok a, s') ∧ g a = b := by
  rcases hx : x.run.run s with ⟨r, s'⟩
  rw [hx] at h
  cases r with
  | error e => cases h
  | ok a => exact ⟨a, s', rfl, Option.some.inj h⟩

/-- A run that is seen to fail has failed. -/
theorem exists_run_eq_error {g : Error → β} {b : β} (h : (failure? (x.run.run s).1).map g = some b) :
    ∃ e s', x.run.run s = (.error e, s') ∧ g e = b := by
  rcases hx : x.run.run s with ⟨r, s'⟩
  rw [hx] at h
  cases r with
  | ok a => cases h
  | error e => exact ⟨e, s', rfl, Option.some.inj h⟩

/-- If every part of a run over a list keeps an invariant and gives what a function gives, then so does the run. -/
theorem of_run_mapM_eq_ok {I : τ → Prop} {g : α → β}
    (hf : ∀ a s b s', I s → (f a).run.run s = (.ok b, s') → I s' ∧ b = g a)
    {as : List α} {bs : List β} (hI : I s) (h : (as.mapM f).run.run s = (.ok bs, s')) : I s' ∧ bs = as.map g := by
  induction as generalizing s bs with
  | nil =>
    cases h
    exact ⟨hI, rfl⟩
  | cons a as ih =>
    rw [List.mapM_cons] at h
    obtain ⟨b, s₁, hb, h⟩ := of_run_bind_eq_ok h
    obtain ⟨bs', s₂, hbs, h⟩ := of_run_bind_eq_ok h
    cases h
    obtain ⟨hI₁, rfl⟩ := hf _ _ _ _ hI hb
    obtain ⟨hI₂, rfl⟩ := ih hI₁ hbs
    exact ⟨hI₂, rfl⟩

end State

/-! ## Loads and work -/

section Work

variable {κ κ' σ α β : Type} {session session' : Session σ}

theorem Load.run_ofExcept {x r : Except Error α} (session : Session σ) (h : x = r) :
    (Load.ofExcept x).run.run session = (r, session) := by
  rw [h]
  rfl

theorem Work.run_ofLoad {x : Load σ α} {r : Except Error α} (k : κ) (h : x.run.run session = (r, session')) :
    (Work.ofLoad x).run.run (k, session) = (r, k, session') := by
  have h' : x session = (r, session') := h
  simp only [Work.ofLoad, ExceptT.run, ExceptT.mk, StateT.run, h']

theorem Work.run_runFrom {x : Work κ σ α} {r : Except Error α} {k k' : κ}
    (h : x.run.run (k, session) = (r, k', session')) : (x.runFrom k).run.run session = (r.map (·, k'), session') := by
  have h' : x (k, session) = (r, k', session') := h
  simp only [Work.runFrom, ExceptT.run, ExceptT.mk, StateT.run, h']

theorem Work.of_run_ofLoad {x : Load σ α} {r : Except Error α} {k k' : κ}
    (h : (Work.ofLoad x).run.run (k, session) = (r, k', session')) : k' = k ∧ x.run.run session = (r, session') := by
  rcases hx : x.run.run session with ⟨r₁, s₁⟩
  rw [Work.run_ofLoad k hx] at h
  cases h
  exact ⟨rfl, rfl⟩

/-- A load that begins some work leaves the state of the work alone. -/
theorem Work.of_run_ofLoad_bind_eq_ok {β : Type} {x : Load σ α} {f : α → Work κ σ β} {b : β} {k k' : κ}
    (h : (Work.ofLoad x >>= f).run.run (k, session) = (.ok b, k', session')) :
    ∃ a s, x.run.run session = (.ok a, s) ∧ (f a).run.run (k, s) = (.ok b, k', session') := by
  obtain ⟨a, ⟨k₁, s⟩, hx, hf⟩ := of_run_bind_eq_ok h
  obtain ⟨rfl, hload⟩ := Work.of_run_ofLoad hx
  exact ⟨a, s, hload, hf⟩

theorem Work.of_run_runFrom {x : Work κ σ α} {a : α} {k k' : κ}
    (h : (x.runFrom k).run.run session = (.ok (a, k'), session')) : x.run.run (k, session) = (.ok a, k', session') := by
  rcases hx : x.run.run (k, session) with ⟨r, k₁, s₁⟩
  rw [Work.run_runFrom hx] at h
  cases r with
  | error e => cases h
  | ok a => cases h; rfl

/-! Work that starts in a state is a load, step by step. -/

theorem Work.runFrom_own (k : κ) : (Work.own : Work κ σ κ).runFrom k = pure (k, k) := rfl

theorem Work.runFrom_pure (a : α) (k : κ) : (pure a : Work κ σ α).runFrom k = pure (a, k) := rfl

theorem Work.runFrom_update (f : κ → κ) (k : κ) : (Work.update f : Work κ σ Unit).runFrom k = pure ((), f k) := rfl

theorem Work.runFrom_ofLoad (x : Load σ α) (k : κ) : (Work.ofLoad x).runFrom k = x >>= fun a => pure (a, k) := by
  refine ExceptT.ext (funext fun s => ?_)
  rcases hx : x.run.run s with ⟨r, s'⟩
  have hleft := Work.run_runFrom (Work.run_ofLoad k hx)
  cases r with
  | ok a =>
    have hright := run_bind_of_ok (f := fun a => (pure (a, k) : Load σ (α × κ))) hx
    exact hleft.trans hright.symm
  | error e => exact hleft.trans (run_bind_of_error hx).symm

theorem Work.runFrom_bind (x : Work κ σ α) (f : α → Work κ σ β) (k : κ) :
    (x >>= f).runFrom k = x.runFrom k >>= fun r => (f r.1).runFrom r.2 := by
  refine ExceptT.ext (funext fun s => ?_)
  rcases hx : x.run.run (k, s) with ⟨r, k', s'⟩
  have hrun := Work.run_runFrom hx
  cases r with
  | ok a =>
    rcases hf : (f a).run.run (k', s') with ⟨r, k'', s''⟩
    have hleft := Work.run_runFrom ((run_bind_of_ok (f := f) hx).trans hf)
    have hright := run_bind_of_ok (f := fun r => (f r.1).runFrom r.2) hrun
    exact hleft.trans (hright.trans (Work.run_runFrom hf)).symm
  | error e =>
    have hleft := Work.run_runFrom (run_bind_of_error (f := f) hx)
    exact hleft.trans (run_bind_of_error hrun).symm

end Work

end Stencil
