import Stencil.Proofs.Failing
import Stencil.Proofs.Stepping

/-!
# Renders end

A render comes to its end after finitely many operations, whatever the templates include (`render_ends`). Includes are
refused where the including context has depth `maxIncludes`, and nowhere else; no context is deeper.

`Config.steps` says all that a single operation can lead to. What it leaves alone (`Config.Shallow.step`) is carried
through a run by `Progress.invariant`.
-/

namespace Stencil

open Script (Expr)

variable {σ : Type} {loader : Loader σ}

/-! ## What an operation leads to -/

namespace Config

/-- The next operation is no inclusion, and this is what performing it comes to. -/
structure Performs (c : Config σ) (op : LinkedOp) (r : Except Error Move) (ctx : Context) (session : Session σ) :
    Prop where
  next : c.next? = some op
  other : ∀ name extra, op.op ≠ .includes name extra
  run : (c.active.template.program.perform (fun _ _ _ => pure ()) c.active.control.frames op).run.run
    (c.active.ctx, c.session) = (r, ctx, session)

/-- The next operation is an inclusion, and this is what its name and its further locals come to. -/
inductive Asks (c : Config σ) (op : LinkedOp) (r : Except Error (String × Bindings Value)) (ctx : Context)
    (session : Session σ) : Prop
  | mk {name : Expr} {extra : List (String × Expr)} : c.next? = some op → op.op = .includes name extra →
    (c.active.template.program.asked op name extra).run.run (c.active.ctx, c.session) = (r, ctx, session) →
    Asks c op r ctx session

/-- What an operation leads to. The active template is left, or it performs an operation, or it includes another one,
unless it is too deep or there is none of that name to be loaded. -/
inductive Steps (loader : Loader σ) (c : Config σ) : Progress σ → Prop
  | finish : c.next? = none → c.waiting = [] →
    Steps loader c (.ended (.ok c.active.ctx.buffer, { c.active.ctx with buffer := "" }, c.session))
  | back {caller : Activation} {waiting : List Activation} : c.next? = none → c.waiting = caller :: waiting →
    Steps loader c
      (.running ⟨{ caller with ctx := caller.ctx.write c.active.ctx.buffer }, waiting, c.session⟩)
  | goOn {op : LinkedOp} {m : Move} {ctx : Context} {session : Session σ} : c.Performs op (.ok m) ctx session →
    Steps loader c (.running ⟨⟨c.active.template, c.active.control.goOn m, ctx⟩, c.waiting, session⟩)
  | fault {op : LinkedOp} {e : Error} {ctx : Context} {session : Session σ} : c.Performs op (.error e) ctx session →
    Steps loader c (.ended (failed e ctx session c.waiting))
  | unasked {op : LinkedOp} {e : Error} {ctx : Context} {session : Session σ} : c.Asks op (.error e) ctx session →
    Steps loader c (.ended (failed e ctx session c.waiting))
  | tooDeep {op : LinkedOp} {asked : String × Bindings Value} {ctx : Context} {session : Session σ} :
    c.Asks op (.ok asked) ctx session → maxIncludes ≤ ctx.depth →
    Steps loader c
      (.ended (failed (c.active.template.program.fault op (.includeTooDeep asked.1)) ctx session c.waiting))
  | unloaded {op : LinkedOp} {asked : String × Bindings Value} {e : Error} {ctx : Context}
    {session session' : Session σ} : c.Asks op (.ok asked) ctx session → ctx.depth < maxIncludes →
    (loader.template asked.1).run.run session = (.error e, session') →
    Steps loader c (.ended (failed e ctx session' c.waiting))
  | call {op : LinkedOp} {asked : String × Bindings Value} {t : Template} {ctx : Context}
    {session session' : Session σ} : c.Asks op (.ok asked) ctx session → ctx.depth < maxIncludes →
    (loader.template asked.1).run.run session = (.ok t, session') →
    Steps loader c (.running ⟨⟨t, ⟨0, []⟩, ctx.derive asked.2⟩,
      ⟨c.active.template, c.active.control.goOn (.ahead 0), ctx⟩ :: c.waiting, session'⟩)

theorem steps (loader : Loader σ) (c : Config σ) : c.Steps loader (c.step loader) := by
  unfold step
  rcases hnext : c.next? with _ | op
  · dsimp only
    unfold leave
    split
    · next hwaiting => exact .finish hnext hwaiting
    · next caller waiting hwaiting => exact .back hnext hwaiting
  · dsimp only
    split
    · next name extra hop =>
      unfold perform
      rcases hrun : (c.active.template.program.asked op name extra).run.run (c.active.ctx, c.session) with
        ⟨r, ctx, session⟩
      have hasks : c.Asks op r ctx session := .mk hnext hop hrun
      cases r with
      | error e => exact .unasked hasks
      | ok asked =>
        dsimp only
        unfold insert
        split
        · next hdeep => exact .tooDeep hasks hdeep
        · next hdeep =>
          unfold perform
          rcases hload : (loader.template asked.1).run.run session with ⟨r, session'⟩
          rw [Work.run_ofLoad _ hload]
          cases r with
          | error e => exact .unloaded hasks (Nat.lt_of_not_le hdeep) hload
          | ok t => exact .call hasks (Nat.lt_of_not_le hdeep) hload
    · next hop =>
      unfold perform
      rcases hrun : (c.active.template.program.perform (fun _ _ _ => pure ()) c.active.control.frames op).run.run
        (c.active.ctx, c.session) with ⟨r, ctx, session⟩
      cases r with
      | error e => exact .fault ⟨hnext, hop, hrun⟩
      | ok m => exact .goOn ⟨hnext, hop, hrun⟩

variable {c c' : Config σ} {op : LinkedOp} {ctx : Context} {session : Session σ}

theorem Performs.depth_eq {r : Except Error Move} (h : c.Performs op r ctx session) :
    ctx.depth = c.active.ctx.depth := by
  have hkeeps := (c.active.template.program.keeps_depth op).perform (fun _ _ _ => pure ())
    (fun _ _ => .pure ()) c.active.control.frames c.active.ctx c.session
  rw [h.run] at hkeeps
  exact hkeeps

theorem Asks.depth_eq {r : Except Error (String × Bindings Value)} (h : c.Asks op r ctx session) :
    ctx.depth = c.active.ctx.depth := by
  obtain @⟨name, extra, -, -, hrun⟩ := h
  have hkeeps := (c.active.template.program.keeps_depth op).asked name extra c.active.ctx c.session
  rw [hrun] at hkeeps
  exact hkeeps

/-- No context is too deep. -/
def Shallow (c : Config σ) : Prop := ∀ a ∈ c.active :: c.waiting, a.ctx.depth ≤ maxIncludes

theorem Shallow.step (h : c.Shallow) (hstep : c.step loader = .running c') : c'.Shallow := by
  have hsteps := c.steps loader
  rw [hstep] at hsteps
  have hwaiting (a : Activation) (ha : a ∈ c.waiting) : a.ctx.depth ≤ maxIncludes := h a (List.mem_cons_of_mem _ ha)
  have hactive := h c.active List.mem_cons_self
  cases hsteps with
  | @back caller waiting hnext hcaller =>
    rw [hcaller] at hwaiting
    intro a ha
    rcases List.mem_cons.mp ha with rfl | ha
    · exact hwaiting caller List.mem_cons_self
    · exact hwaiting a (List.mem_cons_of_mem _ ha)
  | goOn hperforms =>
    intro a ha
    rcases List.mem_cons.mp ha with rfl | ha
    · rwa [hperforms.depth_eq]
    · exact hwaiting a ha
  | call hasks hlt hload =>
    intro a ha
    rcases List.mem_cons.mp ha with rfl | ha
    · exact hlt
    · rcases List.mem_cons.mp ha with rfl | ha
      · exact Nat.le_of_lt hlt
      · exact hwaiting a ha

end Config

/-! ## Runs -/

namespace Progress

variable {c c' : Config σ} {n : Nat}

theorem after_ended (loader : Loader σ) (n : Nat) (e : Ending σ) : after loader n (.ended e) = .ended e := by
  induction n with
  | zero => rfl
  | succ n ih => exact ih

/-- A render comes to one end only. -/
theorem Comes.unique {s : Progress σ} {e e' : Ending σ} (h : s.Comes loader e) (h' : s.Comes loader e') : e = e' := by
  obtain ⟨n, hn⟩ := h
  obtain ⟨k, hk⟩ := h'
  induction n generalizing s k with
  | zero =>
    rw [show s = .ended e from hn, after_ended] at hk
    exact ended.inj hk
  | succ n ih =>
    cases k with
    | zero =>
      rw [show s = .ended e' from hk, after_ended] at hn
      exact (ended.inj hn).symm
    | succ k => exact ih hn k hk

/-- What every operation keeps holds as long as the machine runs. -/
theorem invariant {I : Config σ → Prop} (hI : ∀ c c', I c → c.step loader = .running c' → I c') (h : I c)
    (hafter : after loader n (.running c) = .running c') : I c' := by
  induction n generalizing c with
  | zero =>
    cases hafter
    exact h
  | succ n ih =>
    have hrest : after loader n (c.step loader) = .running c' := hafter
    rcases hstep : c.step loader with c₁ | e
    · rw [hstep] at hrest
      exact ih (hI c c₁ h hstep) hrest
    · rw [hstep, after_ended] at hrest
      cases hrest

/-- The text that a render which has ended gives. -/
def text? : Progress σ → Option String
  | ended (.ok text, _) => some text
  | _ => none

theorem of_text? {s : Progress σ} {text : String} (h : s.text? = some text) : ∃ rest, s = ended (.ok text, rest) := by
  unfold text? at h
  split at h
  · next text' rest =>
    cases h
    exact ⟨rest, rfl⟩
  · cases h

end Progress

/-- What the machine ends with is what the template renders to. -/
theorem Template.run_render_of_text? {t : Template} {ctx : Context} {session : Session σ} {n : Nat} {text : String}
    (h : (Progress.after loader n (.running (.start t ctx session))).text? = some text) :
    ∃ ctx' session', (t.render loader).run.run (ctx, session) = (.ok text, ctx', session') := by
  obtain ⟨⟨ctx', session'⟩, hended⟩ := Progress.of_text? h
  exact ⟨ctx', session', (Config.start_comes loader t ctx session).unique ⟨n, hended⟩⟩

/-! ## Includes that are refused -/

namespace Config

variable {c : Config σ} {op : LinkedOp} {asked : String × Bindings Value} {ctx : Context} {session : Session σ}

/-- The include is refused because the template is too deep. -/
def Refuses (loader : Loader σ) (c : Config σ) (op : LinkedOp) (name : String) : Prop :=
  ∃ ctx session,
    c.step loader = .ended (.error (c.active.template.program.fault op (.includeTooDeep name)), ctx, session)

theorem Asks.step_eq (h : c.Asks op (.ok asked) ctx session) (loader : Loader σ) :
    c.step loader = insert loader op asked ⟨{ c.active with ctx }, c.waiting, session⟩ := by
  obtain ⟨hnext, hop, hrun⟩ := h
  unfold step
  rw [hnext]
  dsimp only
  rw [hop]
  dsimp only
  unfold perform
  rw [hrun]

theorem Asks.refuses_iff (h : c.Asks op (.ok asked) ctx session)
    (hloader : ∀ name, FailsOnly Error.OfLoading (loader.template name)) :
    c.Refuses loader op asked.1 ↔ maxIncludes ≤ c.active.ctx.depth := by
  unfold Refuses
  rw [h.step_eq loader, ← h.depth_eq]
  unfold insert
  dsimp only
  constructor
  · rintro ⟨ctx', session', hrefused⟩
    by_contra hdeep
    rw [if_neg hdeep] at hrefused
    unfold perform at hrefused
    rcases hload : (loader.template asked.1).run.run session with ⟨r, session₁⟩
    rw [Work.run_ofLoad _ hload] at hrefused
    cases r with
    | ok t => cases hrefused
    | error e =>
      have hfailed := congrArg Prod.fst (Progress.ended.inj hrefused)
      rw [fst_failed] at hfailed
      cases hfailed
      exact hloader asked.1 session _ (congrArg Prod.fst hload) _ _ rfl
  · intro hdeep
    rw [if_pos hdeep]
    have hfailed := fst_failed (c.active.template.program.fault op (.includeTooDeep asked.1)) ctx session c.waiting
    exact ⟨_, _, congrArg Progress.ended (Prod.ext hfailed rfl)⟩

end Config

/-! ## Main results -/

variable {m : Markup} {texts : Bindings String}

theorem Loader.inMemory_failsOnly (m : Markup) (texts : Bindings String) (name : String) :
    FailsOnly Error.OfLoading ((Loader.direct (Sources.inMemory m texts : Sources σ)).template name) :=
  Loader.direct_failsOnly (Sources.inMemory_failsOnly m texts) name

/-- **Every render ends, and no template is included too deep.** With templates in memory that include one another in
whatever way, the machine comes to what `Template.render` gives after finitely many operations. In a render that starts
at depth 0, no context is deeper than `maxIncludes` on the way, and an include is refused for its depth exactly where
the template that includes has that depth. -/
theorem render_ends (m : Markup) (texts : Bindings String) (t : Template) (ctx : Context) (session : Session σ) :
    let loader := Loader.direct (Sources.inMemory m texts)
    let progress n := Progress.after loader n (.running (.start t ctx session))
    (∃ n, progress n = .ended ((t.render loader).run.run (ctx, session))) ∧
      (ctx.depth = 0 → ∀ n c, progress n = .running c →
        (∀ a ∈ c.active :: c.waiting, a.ctx.depth ≤ 64) ∧
          ∀ op asked ctx' session', c.Asks op (.ok asked) ctx' session' →
            (c.Refuses loader op asked.1 ↔ c.active.ctx.depth = 64)) := by
  intro loader progress
  refine ⟨Config.start_comes loader t ctx session, fun hd n c hc => ?_⟩
  have hstart : (Config.start t ctx session).Shallow := by
    intro a ha
    rw [List.mem_singleton.mp ha]
    exact Nat.le_trans (Nat.le_of_eq hd) (Nat.zero_le _)
  have hshallow : c.Shallow := Progress.invariant (fun _ _ h => h.step) hstart hc
  refine ⟨hshallow, fun op asked ctx' session' hasks => ?_⟩
  rw [hasks.refuses_iff (Loader.inMemory_failsOnly m texts)]
  exact ⟨fun hle => Nat.le_antisymm (hshallow c.active List.mem_cons_self) hle, fun he => Nat.le_of_eq he.symm⟩

/-- A template that includes itself. -/
theorem render_ends_loop :
    let loader : Loader Unit := .direct (.inMemory .firstPass [("loop", "x%\x7b include \"loop\" \x7d")])
    let ctx := Context.fresh (fun _ => none) [] id false
    ∃ t session, (loader.template "loop").run.run ⟨(), []⟩ = (.ok t, session) ∧
      let progress n := Progress.after loader n (.running (.start t ctx session))
      (∃ n, progress n = .ended ((t.render loader).run.run (ctx, session))) ∧ ctx.depth = 0 ∧
        ∀ n c, progress n = .running c →
          (∀ a ∈ c.active :: c.waiting, a.ctx.depth ≤ 64) ∧
            ∀ op asked ctx' session', c.Asks op (.ok asked) ctx' session' →
              (c.Refuses loader op asked.1 ↔ c.active.ctx.depth = 64) := by
  intro loader ctx
  obtain ⟨t, session, hrun, -⟩ := exists_run_eq_ok (s := ⟨(), []⟩) (x := loader.template "loop") (g := Template.name)
    (b := "loop") (by decide +kernel)
  obtain ⟨hends, hdepth⟩ := render_ends .firstPass [("loop", "x%\x7b include \"loop\" \x7d")] t ctx session
  exact ⟨t, session, hrun, hends, rfl, hdepth rfl⟩

end Stencil
