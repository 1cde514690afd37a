import Stencil.Proofs.Jumps

/-!
# Frames and loops

The frames of a template that is being rendered belong to the loops around the place that it has come to: there is one
for each of them, and its body stands right behind the start of the loop (`Control.Framed`).

`Op.Leads` says which moves an operation can give. A move keeps the frames in step with the loops, since jumps lead to
where they have to (`Control.Framed.goOn`), and so does every operation, also where templates include one another
(`Config.Framed.step`). So there always is a frame at the end of a loop, and none is left behind the last operation.
`Template.InStep` says what this comes to in the course of a render, and `frames_match_loops` adds how programs are
linked.
-/

namespace Stencil

open Script (Expr LoopVars)

variable {σ : Type}

/-! ## The moves of an operation -/

/-- The operation can give the move. -/
def Op.Leads (m : Move) : Op → Prop
  | jumpUnless _ ahead => m = .ahead 0 ∨ m = .ahead ahead
  | jump ahead => m = .ahead ahead
  | loopStart _ _ ahead => m = .ahead ahead ∨ ∃ passes saved, m = .enter passes saved
  | loopNext back => m = .again back
  | _ => m = .ahead 0

/-- The computation gives nothing but results of a kind. -/
def GivesOnly {τ α : Type} (Q : α → Prop) (x : ExceptT Error (StateM τ) α) : Prop :=
  ∀ s a s', x.run.run s = (.ok a, s') → Q a

namespace GivesOnly

variable {τ α β : Type} {Q : β → Prop}

theorem pure {b : β} (h : Q b) : GivesOnly Q (pure b : ExceptT Error (StateM τ) β) := by
  rintro s _ s' ⟨⟩
  exact h

theorem throw (e : Error) : GivesOnly Q (throw e : ExceptT Error (StateM τ) β) := by
  rintro s b s' ⟨⟩

theorem bind {x : ExceptT Error (StateM τ) α} {f : α → ExceptT Error (StateM τ) β} (hf : ∀ a, GivesOnly Q (f a)) :
    GivesOnly Q (x >>= f) := by
  intro s b s' h
  obtain ⟨a, s₁, -, hrest⟩ := of_run_bind_eq_ok h
  exact hf a s₁ b s' hrest

end GivesOnly

namespace Program

variable (p : Program) (inclusion : Inclusion σ) (frames : List Frame) (op : LinkedOp)

theorem perform_givesOnly : GivesOnly (fun m => op.op.Leads m) (p.perform inclusion frames op) := by
  obtain ⟨kind, source⟩ := op
  cases kind with
  | literal text => exact .bind fun _ => .pure rfl
  | emit e escaped => exact .bind fun _ => .bind fun _ => .pure rfl
  | assign name e => exact .bind fun _ => .bind fun _ => .pure rfl
  | includes name extra => exact .bind fun _ => .bind fun _ => .bind fun _ => .pure rfl
  | eval e => exact .bind fun _ => .pure rfl
  | jump ahead => exact .pure rfl
  | jumpUnless test ahead =>
    refine .bind fun v => .pure ?_
    cases v.truthy with
    | true => exact .inl rfl
    | false => exact .inr rfl
  | loopStart vars iterable ahead =>
    rw [perform_loopStart]
    refine .bind fun entered => .pure ?_
    rcases entered with _ | ⟨passes, saved⟩
    · exact .inl rfl
    · exact .inr ⟨passes, saved, rfl⟩
  | loopNext back =>
    unfold Program.perform
    dsimp only
    split
    · exact .throw _
    · split
      · exact .bind fun _ => .pure rfl
      · exact .bind fun _ => .pure rfl

/-! ## The failures of an operation -/

/-- The failure is that of an expression of the operation. -/
def Misevaluates (e : Error) : Prop := ∃ fault, e = p.fault op (.evaluation fault)

variable {p op}

theorem evaluate_failsOnly (e : Expr) : FailsOnly (p.Misevaluates op) (p.evaluate op e : Run σ Value) := by
  refine FailsOnly.own.bind fun ctx => ?_
  split
  · exact .pure _
  · exact .throw ⟨_, rfl⟩

theorem evaluateAll_failsOnly (extra : List (String × Expr)) : FailsOnly (p.Misevaluates op)
    (extra.mapM fun (key, e) => return (key, ← p.evaluate op e) : Run σ (List (String × Value))) := by
  refine FailsOnly.mapM (fun entry => ?_) extra
  exact (evaluate_failsOnly entry.2).bind fun v => .pure (entry.1, v)

theorem asked_failsOnly (name : Expr) (extra : List (String × Expr)) :
    FailsOnly (p.Misevaluates op) (p.asked op name extra : Run σ _) :=
  (evaluate_failsOnly name).bind fun _ => (evaluateAll_failsOnly extra).bind fun _ => .pure _

variable {inclusion frames}

/-- If there is a frame at the end of a loop, only expressions fail, and what is included. -/
theorem perform_failsOnly
    (hinclusion : ∀ name extra, FailsOnly (p.Misevaluates op) (inclusion (p.position op) name extra))
    (hframes : ∀ back, op.op = .loopNext back → frames ≠ []) :
    FailsOnly (p.Misevaluates op) (p.perform inclusion frames op) := by
  obtain ⟨kind, source⟩ := op
  cases kind with
  | literal text => exact (FailsOnly.update _).bind fun _ => .pure _
  | emit e escaped => exact (evaluate_failsOnly e).bind fun _ => (FailsOnly.update _).bind fun _ => .pure _
  | assign name e => exact (evaluate_failsOnly e).bind fun _ => (FailsOnly.update _).bind fun _ => .pure _
  | includes name extra =>
    refine (evaluate_failsOnly name).bind fun name => (evaluateAll_failsOnly extra).bind fun extra => ?_
    exact (hinclusion _ _).bind fun _ => .pure _
  | eval e => exact (evaluate_failsOnly e).bind fun _ => .pure _
  | jumpUnless test ahead => exact (evaluate_failsOnly test).bind fun _ => .pure _
  | jump ahead => exact .pure _
  | loopStart vars iterable ahead =>
    rw [perform_loopStart]
    refine FailsOnly.bind ((evaluate_failsOnly iterable).bind fun v => ?_) fun _ => .pure _
    split
    · exact .throw ⟨_, rfl⟩
    · exact .pure _
    · exact FailsOnly.own.bind fun _ => (FailsOnly.update _).bind fun _ => .pure _
  | loopNext back =>
    unfold Program.perform
    dsimp only
    split
    · exact absurd rfl (hframes back rfl)
    · split
      · exact (FailsOnly.update _).bind fun _ => .pure _
      · exact (FailsOnly.update _).bind fun _ => .pure _

end Program

/-! ## Control -/

/-- Control stands in the program, with a frame for each loop around it. The body that the frame goes back to stands
right behind the start of the loop. -/
structure Control.Framed (p : Program) (c : Control) : Prop where
  place : c.place ≤ p.ops.size
  frames : c.frames.map Frame.body = (p.openLoops c.place).map (· + 1)

namespace Control.Framed

variable {p : Program} {c : Control} {op : LinkedOp} {m : Move}

theorem start (p : Program) : Framed p ⟨0, []⟩ := ⟨Nat.zero_le _, rfl⟩

theorem length_eq (h : c.Framed p) : c.frames.length = (p.loopsAround c.place).length := by
  have hlength := congrArg List.length h.frames
  rw [List.length_map, List.length_map] at hlength
  rw [hlength, p.length_loopsAround]

/-- Behind the last operation no frame is left. -/
theorem eq_of_end (h : c.Framed p) (hend : p.ops[c.place]? = none) : c = ⟨p.ops.size, []⟩ := by
  obtain ⟨place, frames⟩ := c
  obtain rfl : place = p.ops.size := Nat.le_antisymm h.place (Array.getElem?_eq_none_iff.mp hend)
  have hframes := h.frames
  have hclosed : p.openLoops p.ops.size = [] := p.closed.loops
  dsimp only at hframes
  rw [hclosed, List.map_nil] at hframes
  rw [List.map_eq_nil_iff.mp hframes]

/-- At the end of a loop, the innermost frame is that of the loop. -/
theorem of_loopNext {back source : Nat} (h : c.Framed p) (hop : p.ops[c.place]? = some ⟨.loopNext back, source⟩) :
    ∃ frame frames, c.frames = frame :: frames ∧ c.place = frame.body + back ∧
      p.openLoops frame.body = p.openLoops c.place ∧
        frames.map Frame.body = (p.openLoops (c.place + 1)).map (· + 1) := by
  obtain ⟨start, vars, iterable, source', hplace, hstart, hopen⟩ := Program.lands hop
  have hframes := h.frames
  rw [hopen, List.map_cons] at hframes
  obtain ⟨frame, frames, heq, hbody, hrest⟩ := List.map_eq_cons_iff.mp hframes
  refine ⟨frame, frames, heq, by rw [hplace, hbody], ?_, ?_⟩
  · rw [hbody, hopen, Program.openLoops_of_loopStart hstart]
  · rw [hrest, Program.openLoops_of_loopNext hop, hopen, List.tail_cons]

theorem ne_nil_of_loopNext (h : c.Framed p) (hop : p.ops[c.place]? = some op) (back : Nat)
    (hnext : op.op = .loopNext back) : c.frames ≠ [] := by
  obtain ⟨kind, source⟩ := op
  cases hnext
  obtain ⟨frame, frames, heq, -⟩ := h.of_loopNext hop
  rw [heq]
  exact List.cons_ne_nil _ _

theorem ahead {count : Nat} (h : c.Framed p) (hle : c.place + 1 + count ≤ p.ops.size)
    (hopen : p.openLoops (c.place + 1 + count) = p.openLoops c.place) : (c.goOn (.ahead count)).Framed p :=
  ⟨hle, by rw [goOn, hopen, h.frames]⟩

/-- Frames stay in step with the loops. -/
theorem goOn (h : c.Framed p) (hop : p.ops[c.place]? = some op) (hm : op.op.Leads m) : (c.goOn m).Framed p := by
  have hlt : c.place < p.ops.size := (Array.getElem?_eq_some_iff.mp hop).1
  have hlands := Program.lands hop
  obtain ⟨kind, source⟩ := op
  cases kind with
  | literal | emit | assign | includes | eval =>
    cases hm
    exact h.ahead hlt (Program.openLoops_of_not_turns hop rfl)
  | jumpUnless test ahead =>
    have hnext := Program.openLoops_of_not_turns hop rfl
    rcases hm with rfl | rfl
    · exact h.ahead hlt hnext
    · exact h.ahead hlands.1 (hlands.2.trans hnext)
  | jump ahead =>
    cases hm
    exact h.ahead hlands.1 (hlands.2.trans (Program.openLoops_of_not_turns hop rfl))
  | loopStart vars iterable ahead =>
    obtain ⟨back, source', rfl, hend, hopen⟩ := hlands
    rcases hm with rfl | ⟨passes, saved, rfl⟩
    · have hbehind : c.place + 1 + (back + 1) = c.place + (back + 1) + 1 := by omega
      refine h.ahead ?_ ?_
      · rw [hbehind]
        exact (Array.getElem?_eq_some_iff.mp hend).1
      · rw [hbehind, Program.openLoops_of_loopNext hend, hopen, List.tail_cons]
    · refine ⟨hlt, ?_⟩
      rw [Control.goOn, Program.openLoops_of_loopStart hop, List.map_cons, List.map_cons, h.frames]
  | loopNext back =>
    cases hm
    obtain ⟨⟨passes, saved, body⟩, frames, hframes, hplace, hbody, hrest⟩ := h.of_loopNext hop
    unfold Control.goOn
    dsimp only
    rw [hframes]
    cases passes with
    | nil => exact ⟨hlt, hrest⟩
    | cons pass passes =>
      dsimp only at hplace hbody ⊢
      have hback : c.place - back = body := by omega
      refine ⟨Nat.le_trans (Nat.sub_le ..) (Nat.le_of_lt hlt), ?_⟩
      dsimp only
      rw [hback, hbody, ← h.frames, hframes, List.map_cons, List.map_cons]

/-- A loop goes back to its body anyway, and never meets the bound that is put on it. -/
theorem move_again_eq {back source : Nat} (h : c.Framed p)
    (hop : p.ops[c.place]? = some ⟨.loopNext back, source⟩) : c.move (.again back) = c.goOn (.again back) := by
  obtain ⟨⟨passes, saved, body⟩, frames, hframes, hplace, -, -⟩ := h.of_loopNext hop
  have hback : max (c.place - back) body = c.place - back := by
    dsimp only at hplace
    omega
  unfold move Control.goOn
  dsimp only
  rw [hframes]
  cases passes with
  | nil => rfl
  | cons pass passes =>
    dsimp only
    rw [hback]

theorem move_eq_goOn (h : c.Framed p) (hop : p.ops[c.place]? = some op) (hm : op.op.Leads m) : c.move m = c.goOn m := by
  obtain ⟨kind, source⟩ := op
  cases kind with
  | literal | emit | assign | includes | eval | jump =>
    cases hm
    rfl
  | jumpUnless => rcases hm with rfl | rfl <;> rfl
  | loopStart => rcases hm with rfl | ⟨passes, saved, rfl⟩ <;> rfl
  | loopNext back =>
    cases hm
    exact h.move_again_eq hop

end Control.Framed

/-! ## The machine -/

/-- All templates on the stack have their frames in step with their loops. -/
def Config.Framed (c : Config σ) : Prop := ∀ a ∈ c.active :: c.waiting, a.control.Framed a.template.program

section Machine

variable {loader : Loader σ} {c c' : Config σ} {ending : Ending σ}

theorem Config.Performs.leads {op : LinkedOp} {m : Move} {ctx : Context} {session : Session σ}
    (h : c.Performs op (.ok m) ctx session) : op.op.Leads m :=
  Program.perform_givesOnly _ _ _ _ _ _ _ h.run

theorem Config.Framed.active (h : c.Framed) : c.active.control.Framed c.active.template.program :=
  h c.active List.mem_cons_self

theorem Config.framed_start (t : Template) (ctx : Context) (session : Session σ) : (start t ctx session).Framed := by
  intro a ha
  obtain rfl := List.mem_singleton.mp ha
  exact .start _

theorem Config.Framed.step (h : c.Framed) (hstep : c.step loader = .running c') : c'.Framed := by
  have hsteps := c.steps loader
  rw [hstep] at hsteps
  have hactive := h.active
  have hwaiting := (List.forall_mem_cons.mp h).2
  cases hsteps with
  | back hnext hcaller =>
    rw [hcaller] at hwaiting
    exact List.forall_mem_cons.mpr (List.forall_mem_cons.mp hwaiting)
  | goOn hperforms => exact List.forall_mem_cons.mpr ⟨hactive.goOn hperforms.next hperforms.leads, hwaiting⟩
  | @call op asked t ctx session session' hasks hlt hload =>
    obtain ⟨hnext, hop, -⟩ := hasks
    have hleads : op.op.Leads (.ahead 0) := by
      rw [hop]
      rfl
    exact List.forall_mem_cons.mpr ⟨.start _, List.forall_mem_cons.mpr ⟨hactive.goOn hnext hleads, hwaiting⟩⟩

/-- Nothing fails for a loop end without a loop, unless a template fails to load for it. -/
theorem Config.Framed.exists_loads (h : c.Framed) (hstep : c.step loader = .ended ending) {position : Position}
    (he : ending.1 = .error (.render position .strayLoopEnd)) :
    ∃ name session, ((loader.template name).run.run session).1 = .error (.render position .strayLoopEnd) := by
  have hstray {op : LinkedOp} (hmis : c.active.template.program.Misevaluates op (.render position .strayLoopEnd)) :
      False := by
    obtain ⟨fault, hfault⟩ := hmis
    cases hfault
  have hsteps := c.steps loader
  rw [hstep] at hsteps
  cases hsteps with
  | finish => cases he
  | @fault op e ctx session hperforms =>
    rw [fst_failed] at he
    cases he
    have hfails : FailsOnly (c.active.template.program.Misevaluates op)
        (c.active.template.program.perform (fun _ _ _ => pure ()) c.active.control.frames op : Run σ Move) :=
      Program.perform_failsOnly (fun _ _ => .pure _) (h.active.ne_nil_of_loopNext hperforms.next)
    exact (hstray (hfails _ _ (congrArg Prod.fst hperforms.run))).elim
  | unasked hasks =>
    rw [fst_failed] at he
    cases he
    obtain ⟨-, -, hrun⟩ := hasks
    exact (hstray (Program.asked_failsOnly _ _ _ _ (congrArg Prod.fst hrun))).elim
  | tooDeep hasks =>
    rw [fst_failed] at he
    cases he
  | unloaded hasks hlt hload =>
    rw [fst_failed] at he
    cases he
    exact ⟨_, _, congrArg Prod.fst hload⟩

end Machine

/-! ## Main result -/

/-- In the course of a render, the frames of all templates on the stack are in step with their loops. -/
structure Template.InStep (loader : Loader σ) (t : Template) (ctx : Context) (session : Session σ) : Prop where
  /-- There are as many frames as there are loops around the place that a template has come to. -/
  frames : ∀ n c, Progress.after loader n (.running (.start t ctx session)) = .running c →
    ∀ a ∈ c.active :: c.waiting, a.control.place ≤ a.template.program.ops.size ∧
      a.control.frames.length = (a.template.program.loopsAround a.control.place).length
  /-- There is a frame wherever a loop ends. -/
  entered : ∀ n c op back, Progress.after loader n (.running (.start t ctx session)) = .running c →
    c.next? = some op → op.op = .loopNext back → c.active.control.frames ≠ []
  /-- Control goes on as in `Program.runFrom`: the bound that is put on loops there is never met. -/
  moved : ∀ n c op m ctx' session', Progress.after loader n (.running (.start t ctx session)) = .running c →
    c.Performs op (.ok m) ctx' session' → c.active.control.goOn m = c.active.control.move m
  /-- No frame is left where there are no further operations. -/
  closed : ∀ n c, Progress.after loader n (.running (.start t ctx session)) = .running c →
    c.next? = none → c.active.control = ⟨c.active.template.program.ops.size, []⟩
  /-- The render does not fail for a loop end without a loop, unless the loader gives that failure. -/
  unfailing : ∀ position, ((t.render loader).run.run (ctx, session)).1 = .error (.render position .strayLoopEnd) →
    ∃ name s, ((loader.template name).run.run s).1 = .error (.render position .strayLoopEnd)
  /-- A render that gives a text ends behind the last operation of the template, with no frame left. -/
  finished : ∀ text, ((t.render loader).run.run (ctx, session)).1 = .ok text →
    ∃ n c, Progress.after loader n (.running (.start t ctx session)) = .running c ∧
      c.step loader = .ended ((t.render loader).run.run (ctx, session)) ∧
        c.active.template = t ∧ c.active.control = ⟨t.program.ops.size, []⟩

theorem Template.inStep (loader : Loader σ) (t : Template) (ctx : Context) (session : Session σ) :
    t.InStep loader ctx session := by
  have hframed {n : Nat} {c : Config σ}
      (hc : Progress.after loader n (.running (.start t ctx session)) = .running c) : c.Framed :=
    Progress.invariant (fun _ _ h => h.step) (Config.framed_start t ctx session) hc
  obtain ⟨n, hn⟩ := Config.start_comes loader t ctx session
  obtain ⟨k, c, hc, hlast⟩ := Progress.exists_last hn
  constructor
  case frames => exact fun n c hc a ha => ⟨(hframed hc a ha).place, (hframed hc a ha).length_eq⟩
  case entered => exact fun n c op back hc hnext => (hframed hc).active.ne_nil_of_loopNext hnext back
  case moved =>
    exact fun n c op m _ _ hc hperforms =>
      ((hframed hc).active.move_eq_goOn hperforms.next hperforms.leads).symm
  case closed => exact fun n c hc hnext => (hframed hc).active.eq_of_end hnext
  case unfailing => exact fun position he => (hframed hc).exists_loads hlast he
  case finished =>
    intro text htext
    obtain ⟨hnext, hwaiting, -⟩ := Config.of_step_eq_ok hlast htext
    have hstart : Stacked loader t (Config.start t ctx session).active (Config.start t ctx session).waiting := rfl
    have hstacked : Stacked loader t c.active c.waiting :=
      Progress.invariant (I := fun c => Stacked loader t c.active c.waiting) (fun _ _ h => h.step) hstart hc
    rw [hwaiting] at hstacked
    have htemplate : c.active.template = t := hstacked
    have hend := (hframed hc).active.eq_of_end hnext
    rw [htemplate] at hend
    exact ⟨k, c, hc, hlast, htemplate, hend⟩

/-- **Linked programs are well formed, and the machine keeps its frames in step with their loops.** The operations of a
program come from the instructions in their order, no jump leads out of it, and starts and ends of loops lead right
behind one another. In renders of it, from any context, every template on the stack has as many frames as there are
loops around the place that it has come to. -/
theorem frames_match_loops {origin : String} {instructions : List Located} {p : Program}
    (h : Program.link origin instructions = .ok p) :
    p.instructions = instructions ∧ p.WellLinked ∧
      ∀ (loader : Loader σ) (t : Template) (ctx : Context) (session : Session σ), t.program = p →
        t.InStep loader ctx session :=
  ⟨(Program.of_link h).2, p.wellLinked, fun loader t ctx session _ => t.inStep loader ctx session⟩

/-- A loop with a condition and another loop in it. -/
theorem frames_match_loops_nested :
    let instructions : List Located :=
      [⟨.statement "for x in xs", ⟨"page", 1⟩⟩, ⟨.statement "if x", ⟨"page", 2⟩⟩,
        ⟨.statement "for y in x", ⟨"page", 3⟩⟩, ⟨.expression "y" false, ⟨"page", 3⟩⟩,
        ⟨.statement "end", ⟨"page", 3⟩⟩, ⟨.statement "end", ⟨"page", 4⟩⟩, ⟨.statement "end", ⟨"page", 5⟩⟩]
    ∃ p, Program.link "page" instructions = .ok p ∧ p.loopPairs = [(2, 4), (0, 5)] ∧
      p.loopsAround 3 = [(2, 4), (0, 5)] ∧ p.instructions = instructions ∧ p.WellLinked ∧
        ∀ (loader : Loader Unit) (t : Template) (ctx : Context) (session : Session Unit), t.program = p →
          t.InStep loader ctx session := by
  intro instructions
  have hpairs : (Program.link "page" instructions).toOption.map (fun p => (p.loopPairs, p.loopsAround 3)) =
      some ([(2, 4), (0, 5)], [(2, 4), (0, 5)]) := by decide +kernel
  obtain ⟨p, hp, heq⟩ := Option.map_eq_some_iff.mp hpairs
  obtain ⟨hloops, haround⟩ := Prod.mk.inj heq
  have h := eq_ok_of_toOption hp
  exact ⟨p, h, hloops, haround, frames_match_loops h⟩

end Stencil
