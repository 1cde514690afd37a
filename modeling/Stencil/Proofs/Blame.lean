import Stencil.Proofs.Positions
import Stencil.Proofs.Termination

/-!
# Where failures are put down to

Every operation comes from the instruction whose place it names (`Program.exists_comesFrom`), and it fails with no
failures but its own (`Program.admits_faults`). A render that fails does so in its last operation
(`Progress.exists_last`). The template that is active then is the one that is rendered, or one that has been loaded to
be included (`Stacked`). So the position of a failure is that of an instruction of the active template, and this stands
where its position says (`positions_exact`).
-/

namespace Stencil

open Script (Expr LoopVars Statement)

/-! ## Operations and instructions -/

/-- An instruction that reads so is linked to the operation, perhaps among others. -/
inductive Reading.Links : Reading → Op → Prop
  | literal (text : String) : Links (.literal text) (.literal text)
  | emit (e : Expr) (escaped : Bool) : Links (.emit e escaped) (.emit e escaped)
  | assign (name : String) (e : Expr) : Links (.statement (.assign name e)) (.assign name e)
  | includes (name : Expr) (extra : List (String × Expr)) :
    Links (.statement (.includes name extra)) (.includes name extra)
  | eval (e : Expr) : Links (.statement (.eval e)) (.eval e)
  | ifThen (test : Expr) (ahead : Nat) : Links (.statement (.ifThen test)) (.jumpUnless test ahead)
  | elseIf (test : Expr) (ahead : Nat) : Links (.statement (.elseIf test)) (.jumpUnless test ahead)
  | overElse (ahead : Nat) : Links (.statement .otherwise) (.jump ahead)
  | overElseIf (test : Expr) (ahead : Nat) : Links (.statement (.elseIf test)) (.jump ahead)
  | loop (vars : LoopVars) (iterable : Expr) (ahead : Nat) :
    Links (.statement (.loop vars iterable)) (.loopStart vars iterable ahead)
  | close (back : Nat) : Links (.statement .close) (.loopNext back)

/-- The operation comes from the instruction: it names its place and is linked from what the instruction reads as. -/
structure LinkedOp.ComesFrom (op : LinkedOp) (l : Placed) : Prop where
  place : op.place = l.2
  read : ∃ r, l.read = .ok r ∧ r.Links op.op

/-- Every operation comes from one of the instructions, and they stand in the order of these. Several may come from the
same one. -/
inductive Linked : List Placed → List LinkedOp → Prop
  | nil (ls : List Placed) : Linked ls []
  | skip {ls : List Placed} {ops : List LinkedOp} : Linked ls ops → ∀ l, Linked (l :: ls) ops
  | head {l : Placed} {ls : List Placed} {op : LinkedOp} {ops : List LinkedOp} :
    op.ComesFrom l → Linked (l :: ls) ops → Linked (l :: ls) (op :: ops)

section Linked

variable {ls as bs : List Placed} {ops xs ys : List LinkedOp}

theorem Linked.behind (as : List Placed) (h : Linked bs ys) : Linked (as ++ bs) ys := by
  induction as with
  | nil => exact h
  | cons l as ih => exact ih.skip l

theorem Linked.append (h : Linked as xs) (h' : Linked bs ys) : Linked (as ++ bs) (xs ++ ys) := by
  induction h with
  | nil ls => exact h'.behind ls
  | skip _ l ih => exact ih.skip l
  | head hop _ ih => exact ih.head hop

theorem Linked.exists_mem (h : Linked ls ops) : ∀ op ∈ ops, ∃ l ∈ ls, op.ComesFrom l := by
  induction h with
  | nil ls => exact nofun
  | skip _ l ih =>
    intro op hop
    obtain ⟨l', hl, hcomes⟩ := ih op hop
    exact ⟨l', List.mem_cons_of_mem _ hl, hcomes⟩
  | @head l ls op ops hcomes _ ih => exact List.forall_mem_cons.mpr ⟨⟨l, List.mem_cons_self, hcomes⟩, ih⟩

/-- If the instructions stand in the order of their places, so do the operations. -/
theorem Linked.pairwise (h : Linked ls ops) (hls : (ls.map Prod.snd).Pairwise (· ≤ ·)) :
    (ops.map LinkedOp.place).Pairwise (· ≤ ·) := by
  induction h with
  | nil ls => exact .nil
  | skip _ l ih => exact ih hls.tail
  | @head l ls op ops hcomes hlinked ih =>
    refine List.pairwise_cons.mpr ⟨fun place hplace => ?_, ih hls⟩
    obtain ⟨op', hop', rfl⟩ := List.mem_map.mp hplace
    obtain ⟨l', hl', hcomes'⟩ := hlinked.exists_mem op' hop'
    rw [hcomes.place, hcomes'.place]
    rcases List.mem_cons.mp hl' with rfl | hl'
    · exact Nat.le_refl _
    · exact (List.pairwise_cons.mp hls).1 _ (List.mem_map_of_mem hl')

end Linked

namespace Code

/-- The operations of an alternative: a jump over it for the branch in front, and its own. -/
def alternativeOps : Option (Nat × Code) → List LinkedOp
  | none => []
  | some (place, code) => ⟨.jump code.ops.length, place⟩ :: code.ops

theorem ops_choice (place : Nat) (test : Expr) (body : Code) (alternative : Option (Nat × Code)) (next : Code) :
    ∃ ahead, (choice place test body alternative next).ops =
      ⟨.jumpUnless test ahead, place⟩ :: (body.ops ++ alternativeOps alternative ++ next.ops) := by
  rcases alternative with _ | ⟨elsePlace, code⟩
  · exact ⟨_, by rw [alternativeOps, List.append_nil]; rfl⟩
  · exact ⟨_, by rw [List.append_assoc]; rfl⟩

mutual

theorem Nests.linked : ∀ {ls : List Placed} {c : Code}, Nests ls c → Linked ls c.ops
  | _, _, .done => .nil []
  | _, _, .blank _ hn => hn.linked.skip _
  | _, _, .empty _ hn => hn.linked.skip _
  | _, _, .literal hr hn => .head ⟨rfl, _, hr, .literal _⟩ (hn.linked.skip _)
  | _, _, .emit hr hn => .head ⟨rfl, _, hr, .emit ..⟩ (hn.linked.skip _)
  | _, _, .assign hr hn => .head ⟨rfl, _, hr, .assign ..⟩ (hn.linked.skip _)
  | _, _, .includes hr hn => .head ⟨rfl, _, hr, .includes ..⟩ (hn.linked.skip _)
  | _, _, .eval hr hn => .head ⟨rfl, _, hr, .eval _⟩ (hn.linked.skip _)
  | _, _, @Nests.ifThen l bs ls body next test alternative hr hbs hn => by
    obtain ⟨ahead, hops⟩ := ops_choice l.2 test body alternative next
    rw [hops]
    exact .head ⟨rfl, _, hr, .ifThen ..⟩ ((hbs.linked.append hn.linked).skip _)
  | _, _, .loop hr hbs he hn =>
    .head ⟨rfl, _, hr, .loop ..⟩ ((hbs.linked.append (.head ⟨rfl, _, he, .close _⟩ (hn.linked.skip _))).skip _)

theorem NestsBranches.linked : ∀ {ls : List Placed} {body : Code} {alternative : Option (Nat × Code)},
    NestsBranches ls body alternative → Linked ls (body.ops ++ alternativeOps alternative)
  | _, _, _, .close hbs _ => hbs.linked.append (.nil _)
  | _, _, _, @NestsBranches.otherwise d e bs as body alternative hbs hd has _ => by
    have hbehind := has.linked.append (.nil [e])
    rw [List.append_nil] at hbehind
    exact hbs.linked.append (.head ⟨rfl, _, hd, .overElse _⟩ (hbehind.skip d))
  | _, _, _, @NestsBranches.elseIf d bs as body body' test alternative hbs hd has => by
    -- both the jump that ends the branch in front and the test of the next one come from the divider
    obtain ⟨ahead, hops⟩ := ops_choice d.2 test body' alternative done
    rw [alternativeOps, hops]
    have hbehind := (has.linked.append (.nil [])).skip d
    rw [List.append_nil] at hbehind
    exact hbs.linked.append (.head ⟨rfl, _, hd, .overElseIf ..⟩ (.head ⟨rfl, _, hd, .elseIf ..⟩ hbehind))

end

end Code

/-- Every operation of a program comes from an instruction of the template. -/
theorem Program.exists_comesFrom {p : Program} {op : LinkedOp} (h : op ∈ p.ops) :
    ∃ l, p.instructions[op.place]? = some l ∧ op.ComesFrom (l, op.place) := by
  rw [p.linked, List.mem_toArray] at h
  obtain ⟨⟨l, place⟩, hl, hcomes⟩ := (Code.ofInstructions_eq_ok_iff.mp p.nested).linked.exists_mem op h
  have hplace : op.place = place := hcomes.place
  subst hplace
  exact ⟨l, List.mem_zipIdx_iff_getElem?.mp hl, hcomes⟩

/-- The operations of a program stand in the order of the instructions that they come from. -/
theorem Program.pairwise_places (p : Program) : (p.ops.toList.map LinkedOp.place).Pairwise (· ≤ ·) := by
  rw [p.linked]
  refine (Code.ofInstructions_eq_ok_iff.mp p.nested).linked.pairwise ?_
  rw [List.zipIdx_map_snd]
  exact List.pairwise_le_range'

section Read

variable {l : Placed} {text : String} {e : Expr} {escaped : Bool} {statement : Statement}

theorem Placed.instruction_of_read_literal (h : l.read = .ok (.literal text)) : l.1.instruction = .literal text := by
  unfold read at h
  split at h
  all_goals grind

theorem Placed.exists_of_read_emit (h : l.read = .ok (.emit e escaped)) :
    ∃ code, l.1.instruction = .expression code escaped := by
  unfold read at h
  split at h
  all_goals grind

theorem Placed.exists_of_read_statement (h : l.read = .ok (.statement statement)) :
    ∃ code, l.1.instruction = .statement code ∧ Statement.ofCode code = .ok statement := by
  unfold read at h
  split at h
  all_goals grind

end Read

/-! ## Failures of an operation -/

namespace Program

variable {σ : Type} (p : Program) (op : LinkedOp)

/-- The failure is one of the operation. -/
def Faults (e : Error) : Prop := ∃ fault, e = p.fault op fault

theorem admits_faults : p.Admits op fun _ x => FailsOnly (p.Faults op) (x : Run σ _) where
  pure := .pure
  bind := .bind
  own := .own
  change _ := .update _
  fault fault := .throw ⟨fault, rfl⟩

end Program

/-! ## Failures of a render -/

section Machine

variable {σ : Type} {loader : Loader σ} {t : Template} {c c' : Config σ} {ending : Ending σ}

/-- A render that ends does so in some last operation. -/
theorem Progress.exists_last {n : Nat} (h : after loader n (.running c) = .ended ending) :
    ∃ k c', after loader k (.running c) = .running c' ∧ c'.step loader = .ended ending := by
  induction n generalizing c with
  | zero => cases h
  | succ n ih =>
    have hrest : after loader n (c.step loader) = .ended ending := h
    rcases hstep : c.step loader with c₁ | e
    · rw [hstep] at hrest
      obtain ⟨k, c', hk, hlast⟩ := ih hrest
      refine ⟨k + 1, c', ?_, hlast⟩
      change after loader k (c.step loader) = _
      rw [hstep, hk]
    · rw [hstep, after_ended] at hrest
      cases hrest
      exact ⟨0, c, rfl, hstep⟩

/-- A render that gives a text does so behind the last operation of the outermost template. -/
theorem Config.of_step_eq_ok (hstep : c.step loader = .ended ending) {out : String} (hout : ending.1 = .ok out) :
    c.next? = none ∧ c.waiting = [] ∧ out = c.active.ctx.buffer := by
  have hsteps := c.steps loader
  rw [hstep] at hsteps
  cases hsteps with
  | finish hnext hwaiting => exact ⟨hnext, hwaiting, (Except.ok.inj hout).symm⟩
  | fault hperforms =>
    rw [fst_failed] at hout
    cases hout
  | unasked hasks =>
    rw [fst_failed] at hout
    cases hout
  | tooDeep hasks =>
    rw [fst_failed] at hout
    cases hout
  | unloaded hasks hlt hload =>
    rw [fst_failed] at hout
    cases hout

/-- A render that fails in an operation fails for it. -/
theorem Config.exists_fault (hloader : ∀ name, FailsOnly Error.OfLoading (loader.template name))
    (hstep : c.step loader = .ended ending) {position : Position} {fault : RenderFault}
    (he : ending.1 = .error (.render position fault)) :
    ∃ op, c.next? = some op ∧ c.active.template.program.position op = position := by
  have hof {op : LinkedOp} (hnext : c.next? = some op) (hfaults : c.active.template.program.Faults op
      (.render position fault)) : ∃ op, c.next? = some op ∧ c.active.template.program.position op = position := by
    obtain ⟨fault', hfault⟩ := hfaults
    cases hfault
    exact ⟨op, hnext, rfl⟩
  have hsteps := c.steps loader
  rw [hstep] at hsteps
  cases hsteps with
  | finish => cases he
  | fault hperforms =>
    rw [fst_failed] at he
    cases he
    refine hof hperforms.next ?_
    exact (Program.admits_faults _ _).perform _ (fun _ _ => .pure _) _ _ _ (congrArg Prod.fst hperforms.run)
  | unasked hasks =>
    rw [fst_failed] at he
    cases he
    obtain ⟨hnext, -, hrun⟩ := hasks
    exact hof hnext ((Program.admits_faults _ _).asked _ _ _ _ (congrArg Prod.fst hrun))
  | tooDeep hasks =>
    rw [fst_failed] at he
    obtain ⟨hnext, -, -⟩ := hasks
    exact hof hnext ⟨_, (Except.error.inj he).symm⟩
  | unloaded hasks hlt hload =>
    -- what is to be included does not load, and loading fails in other ways
    rw [fst_failed] at he
    cases he
    exact absurd rfl (hloader _ _ _ (congrArg Prod.fst hload) position fault)

/-- The outermost template is the one that is rendered, and all others have been loaded. -/
def Stacked (loader : Loader σ) (t : Template) (active : Activation) : List Activation → Prop
  | [] => active.template = t
  | caller :: waiting =>
    (∃ name s s', (loader.template name).run.run s = (.ok active.template, s')) ∧ Stacked loader t caller waiting

theorem Stacked.congr {a b : Activation} {waiting : List Activation} (h : Stacked loader t a waiting)
    (hab : b.template = a.template) : Stacked loader t b waiting := by
  cases waiting with
  | nil => exact hab.trans h
  | cons caller waiting =>
    obtain ⟨hloaded, hrest⟩ := h
    exact ⟨by rwa [hab], hrest⟩

theorem Stacked.step (h : Stacked loader t c.active c.waiting) (hstep : c.step loader = .running c') :
    Stacked loader t c'.active c'.waiting := by
  have hsteps := c.steps loader
  rw [hstep] at hsteps
  cases hsteps with
  | back hnext hwaiting =>
    rw [hwaiting] at h
    exact h.2.congr rfl
  | goOn => exact h.congr rfl
  | call hasks hlt hload => exact ⟨⟨_, _, _, hload⟩, h.congr rfl⟩

theorem Stacked.active_cases {active : Activation} {waiting : List Activation} (h : Stacked loader t active waiting) :
    active.template = t ∨ ∃ name s s', (loader.template name).run.run s = (.ok active.template, s') := by
  cases waiting with
  | nil => exact .inl h
  | cons caller waiting => exact .inr h.1

end Machine

/-! ## Main results -/

section Positions

variable {σ : Type} {m : Markup} {texts : Bindings String}

/-- The last operation of a render is performed in the configuration, and comes from the instruction of the template
that is active there. -/
structure Template.EndsAt (loader : Loader σ) (t : Template) (ctx : Context) (session : Session σ) (c : Config σ)
    (l : Located) : Prop where
  reached : ∃ n, Progress.after loader n (.running (.start t ctx session)) = .running c
  last : c.step loader = .ended ((t.render loader).run.run (ctx, session))
  stacked : Stacked loader t c.active c.waiting
  operation : ∃ op, c.next? = some op ∧ c.active.template.program.instructions[op.place]? = some l ∧
    op.ComesFrom (l, op.place)

/-- **Positions are exact.** Every instruction of a template that is compiled from texts in memory comes from the text
that its position names, at the line that its position names. A render that fails in an instruction fails with the
position of an instruction of the template that is active then: the template itself, or one that is included. -/
theorem positions_exact {name : String} {t : Template} {s s' : Session σ}
    (h : ((Loader.direct (Sources.inMemory m texts)).template name).run.run s = (.ok t, s')) :
    let loader : Loader σ := .direct (.inMemory m texts)
    t.ComesFrom m texts name ∧
      ∀ ctx session position fault, ((t.render loader).run.run (ctx, session)).1 = .error (.render position fault) →
        ∃ c l, t.EndsAt loader ctx session c l ∧ l.position = position ∧
          ∃ name, c.active.template.ComesFrom m texts name := by
  intro loader
  have hcomes := Loader.comesFrom_of_template h
  refine ⟨hcomes, fun ctx session position fault he => ?_⟩
  obtain ⟨n, hn⟩ := Config.start_comes loader t ctx session
  obtain ⟨k, c, hc, hlast⟩ := Progress.exists_last hn
  have hstart : Stacked loader t (Config.start t ctx session).active (Config.start t ctx session).waiting := rfl
  have hstacked : Stacked loader t c.active c.waiting :=
    Progress.invariant (I := fun c => Stacked loader t c.active c.waiting) (fun _ _ h => h.step) hstart hc
  obtain ⟨op, hnext, hposition⟩ := Config.exists_fault (Loader.inMemory_failsOnly m texts) hlast he
  obtain ⟨l, hl, hlinked⟩ := Program.exists_comesFrom (Array.mem_of_getElem? hnext)
  refine ⟨c, l, ⟨⟨k, hc⟩, hlast, hstacked, op, hnext, hl, hlinked⟩, ?_, ?_⟩
  · rw [← hposition, Program.position, hl]
    rfl
  · rcases hstacked.active_cases with hactive | ⟨name', s₁, s₂, hload⟩
    · exact ⟨name, by rwa [hactive]⟩
    · exact ⟨name', Loader.comesFrom_of_template hload⟩

/-- The position of the instruction that a render which has ended fails in. -/
def Progress.fault? : Progress σ → Option Position
  | ended (.error (.render position _), _) => some position
  | _ => none

theorem Progress.of_fault? {s : Progress σ} {position : Position} (h : s.fault? = some position) :
    ∃ fault rest, s = ended (.error (.render position fault), rest) := by
  unfold fault? at h
  split at h
  · next fault rest =>
    cases h
    exact ⟨fault, rest, rfl⟩
  · cases h

/-- A template with a parent and a blank run that is removed. It includes one that fails. -/
theorem positions_exact_include :
    let texts := [("page", "%\x7bextends 'base'\x7d\n%\x7bblock b -\x7d\n\n  %\x7binclude 'part'\x7d%\x7bendblock\x7d"),
      ("base", "top\n%\x7bblock b\x7d%\x7bendblock\x7d"), ("part", "x\n$\x7bmissing\x7d")]
    let loader : Loader Unit := .direct (.inMemory .firstPass texts)
    let ctx := Context.fresh (fun _ => none) [] id true
    ∃ t session, (loader.template "page").run.run ⟨(), []⟩ = (.ok t, session) ∧
      t.program.instructions.map Located.position = [⟨"base", 1⟩, ⟨"page", 4⟩, ⟨"page", 4⟩] ∧
      t.ComesFrom .firstPass texts "page" ∧
        ∃ fault, ((t.render loader).run.run (ctx, ⟨(), []⟩)).1 = .error (.render ⟨"part", 2⟩ fault) ∧
          ∃ c l, t.EndsAt loader ctx ⟨(), []⟩ c l ∧ l.position = ⟨"part", 2⟩ ∧
            ∃ name, c.active.template.ComesFrom .firstPass texts name := by
  intro texts loader ctx
  -- the machine is run, since rendering itself does not reduce
  obtain ⟨t, session, hrun, hg⟩ := exists_run_eq_ok (s := ⟨(), []⟩) (x := loader.template "page")
    (g := fun t => (t.program.instructions.map Located.position,
      (Progress.after loader 5 (.running (.start t ctx ⟨(), []⟩))).fault?))
    (b := ([⟨"base", 1⟩, ⟨"page", 4⟩, ⟨"page", 4⟩], some ⟨"part", 2⟩)) (by decide +kernel)
  obtain ⟨hpositions, hfault⟩ := Prod.mk.inj hg
  obtain ⟨fault, rest, hended⟩ := Progress.of_fault? hfault
  have hfails : ((t.render loader).run.run (ctx, ⟨(), []⟩)).1 = .error (.render ⟨"part", 2⟩ fault) :=
    congrArg Prod.fst ((Config.start_comes loader t ctx ⟨(), []⟩).unique ⟨5, hended⟩)
  obtain ⟨hcomes, hends⟩ := positions_exact hrun
  exact ⟨t, session, hrun, hpositions, hcomes, fault, hfails, hends ctx ⟨(), []⟩ _ fault hfails⟩

end Positions

end Stencil
