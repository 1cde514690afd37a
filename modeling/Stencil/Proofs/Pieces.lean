import Stencil.Proofs.Blame
import Stencil.Proofs.Entities

/-!
# What a render is put together from

A render whose templates escape all their expressions writes the literal texts of these templates and escaped values,
and nothing else. The templates are those that are active on the way (`Template.Renders`).

- What has been written in a context is a sequence of pieces behind the text that it was started with
  (`Context.Collects`). An operation keeps this if its pieces are of the kind (`Program.admits_collects`).
- All contexts on the stack are like that (`Collecting`): a template that is included starts with nothing written, and
  its pieces go to the template that waits for it.

The main statement is `no_raw_markup`, together with what is known of HTML text.
-/

namespace Stencil

open Script (Expr)

variable {σ : Type}

/-! ## Pieces -/

section Pieces

variable {P : String → Prop}

/-- The text is a sequence of pieces of a kind. -/
def MadeOf (P : String → Prop) (text : String) : Prop :=
  ∃ pieces : List String, text = String.join pieces ∧ ∀ piece ∈ pieces, P piece

theorem MadeOf.empty (P : String → Prop) : MadeOf P "" := ⟨[], String.join_nil.symm, nofun⟩

theorem MadeOf.single {piece : String} (h : P piece) : MadeOf P piece :=
  ⟨[piece], by simp [String.join_cons, String.join_nil], by simpa using h⟩

theorem MadeOf.append {text text' : String} (h : MadeOf P text) (h' : MadeOf P text') : MadeOf P (text ++ text') := by
  obtain ⟨pieces, rfl, hpieces⟩ := h
  obtain ⟨pieces', rfl, hpieces'⟩ := h'
  refine ⟨pieces ++ pieces', String.join_append.symm, fun piece hpiece => ?_⟩
  rcases List.mem_append.mp hpiece with hpiece | hpiece
  · exact hpieces piece hpiece
  · exact hpieces' piece hpiece

/-- The context escapes text for HTML, and behind a text it has been given pieces to write. -/
structure Context.Collects (P : String → Prop) (before : String) (ctx : Context) : Prop where
  escape : ctx.escape = Text.html
  buffer : ∃ text, ctx.buffer = before ++ text ∧ MadeOf P text

namespace Context.Collects

variable {before : String} {ctx : Context}

theorem write (h : ctx.Collects P before) {text : String} (htext : MadeOf P text) :
    (ctx.write text).Collects P before := by
  obtain ⟨written, hbuffer, hwritten⟩ := h.buffer
  refine ⟨h.escape, written ++ text, ?_, hwritten.append htext⟩
  rw [Context.write, hbuffer, String.append_assoc]

theorem bind (h : ctx.Collects P before) (pass : List (String × Value)) : (ctx.bind pass).Collects P before := by
  obtain ⟨locals, hbind⟩ := ctx.exists_bind_eq pass
  rw [hbind]
  exact ⟨h.escape, h.buffer⟩

theorem restore (h : ctx.Collects P before) (saved : List (String × Option Value)) :
    (ctx.restore saved).Collects P before := by
  obtain ⟨f, hrestore⟩ := exists_restore_eq saved
  rw [hrestore]
  exact ⟨h.escape, h.buffer⟩

/-- A context for an included template starts with no pieces. -/
theorem derive (h : ctx.Collects P before) (extra : Bindings Value) : (ctx.derive extra).Collects P "" :=
  ⟨h.escape, "", rfl, .empty P⟩

end Context.Collects

end Pieces

/-! ## Operations -/

/-- What the operation writes of its own are pieces of the kind, and what it writes of values is escaped. -/
structure Op.Yields (P : String → Prop) (op : Op) : Prop where
  literal : ∀ text, op = .literal text → P text
  emit : ∀ e escaped, op = .emit e escaped → escaped = true

section Operations

variable {P : String → Prop} (hP : ∀ v : Value, P (Text.html v.text))

include hP

theorem Op.Changes.collects {op : Op} (hop : op.Yields P) {g : Context → Context} (hg : op.Changes g) {before : String}
    {ctx : Context} (h : ctx.Collects P before) : (g ctx).Collects P before := by
  cases hg with
  | literal text => exact h.write (.single (hop.literal text rfl))
  | emit e escaped v =>
    obtain rfl := hop.emit e escaped rfl
    exact h.write (.single (h.escape ▸ hP v))
  | assign name e v => exact ⟨h.escape, h.buffer⟩
  | enter vars iterable ahead pass => exact h.bind pass
  | again back pass => exact h.bind pass
  | leave back saved => exact h.restore saved

/-- What an operation writes is collected if it yields pieces. -/
theorem Program.admits_collects (p : Program) {op : LinkedOp} (hop : op.op.Yields P) (before : String) :
    p.Admits op fun _ x => Work.Preserves (σ := σ) (Context.Collects P before) x :=
  p.admits_preserves op fun hg _ h => hg.collects hP hop h

end Operations

/-! ## Renders -/

/-- The template is active in the course of a render: it is the one that is rendered, or it is included, at whatever
depth. -/
def Template.Renders (loader : Loader σ) (t : Template) (ctx : Context) (session : Session σ) (u : Template) : Prop :=
  ∃ n c, Progress.after loader n (.running (.start t ctx session)) = .running c ∧ c.active.template = u

/-- An instruction that writes a value as it is. -/
def Located.isRaw (l : Located) : Bool :=
  match l.instruction with
  | .expression _ false => true
  | _ => false

/-- The operations of a template without raw expressions yield its literal texts. -/
theorem Program.yields {P : String → Prop} {p : Program}
    (hliteral : ∀ l ∈ p.instructions, ∀ text, l.instruction = .literal text → P text)
    (hraw : ∀ l ∈ p.instructions, l.isRaw = false) {op : LinkedOp} (hop : op ∈ p.ops) : op.op.Yields P := by
  obtain ⟨l, hl, -, r, hread, hlinks⟩ := exists_comesFrom hop
  have hmem : l ∈ p.instructions := List.mem_of_getElem? hl
  constructor
  · intro text heq
    rw [heq] at hlinks
    cases hlinks
    exact hliteral l hmem text (Placed.instruction_of_read_literal hread)
  · intro e escaped heq
    rw [heq] at hlinks
    cases hlinks
    obtain ⟨code, hcode⟩ := Placed.exists_of_read_emit hread
    have hescaped := hraw l hmem
    rw [Located.isRaw, hcode] at hescaped
    cases escaped with
    | true => rfl
    | false => cases hescaped

/-- Contexts on the stack collect pieces. The outermost one was started behind a text, the others with nothing. -/
def Collecting (P : String → Prop) (before : String) (active : Activation) : List Activation → Prop
  | [] => active.ctx.Collects P before
  | caller :: waiting => active.ctx.Collects P "" ∧ Collecting P before caller waiting

section Machine

variable {loader : Loader σ} {P : String → Prop} {before : String} {c c' : Config σ}

theorem Collecting.mono {a b : Activation} {waiting : List Activation} (h : Collecting P before a waiting)
    (hab : ∀ text, a.ctx.Collects P text → b.ctx.Collects P text) : Collecting P before b waiting := by
  cases waiting with
  | nil => exact hab before h
  | cons caller waiting => exact ⟨hab "" h.1, h.2⟩

theorem Collecting.active {a : Activation} {waiting : List Activation} (h : Collecting P before a waiting) :
    ∃ text, a.ctx.Collects P text := by
  cases waiting with
  | nil => exact ⟨before, h⟩
  | cons caller waiting => exact ⟨"", h.1⟩

/-- A step of a template whose operations yield pieces goes on collecting them. -/
theorem Collecting.step (hP : ∀ v : Value, P (Text.html v.text))
    (hops : ∀ op ∈ c.active.template.program.ops, op.op.Yields P) (h : Collecting P before c.active c.waiting)
    (hstep : c.step loader = .running c') : Collecting P before c'.active c'.waiting := by
  have hsteps := c.steps loader
  rw [hstep] at hsteps
  cases hsteps with
  | back hnext hwaiting =>
    rw [hwaiting] at h
    obtain ⟨⟨-, text, hbuffer, htext⟩, hcaller⟩ := h
    rw [String.empty_append] at hbuffer
    exact hcaller.mono fun _ hctx => hctx.write (hbuffer ▸ htext)
  | @goOn op m ctx session hperforms =>
    refine h.mono fun text hctx => ?_
    have hadmits := Program.admits_collects (σ := σ) hP c.active.template.program
      (hops op (Array.mem_of_getElem? hperforms.next)) text
    have hafter := hadmits.perform (fun _ _ _ => pure ()) (fun _ _ _ _ h => h) c.active.control.frames c.active.ctx
      c.session hctx
    rwa [hperforms.run] at hafter
  | @call op asked u ctx session session' hasks hlt hload =>
    obtain @⟨name, extra, hnext, hop, hrun⟩ := hasks
    have hasked (text : String) (hctx : c.active.ctx.Collects P text) : ctx.Collects P text := by
      have hadmits := Program.admits_collects (σ := σ) hP c.active.template.program
        (hops op (Array.mem_of_getElem? hnext)) text
      have hafter := hadmits.asked name extra c.active.ctx c.session hctx
      rwa [hrun] at hafter
    obtain ⟨text, hactive⟩ := h.active
    exact ⟨(hasked text hactive).derive asked.2, h.mono hasked⟩

theorem Progress.after_succ (loader : Loader σ) (n : Nat) (s : Progress σ) :
    after loader (n + 1) s = (after loader n s).advance loader := by
  induction n generalizing s with
  | zero => rfl
  | succ n ih => exact ih (s.advance loader)

/-- What every operation keeps that is come to holds as long as the machine runs. -/
theorem Progress.invariant_of_reached {c₀ : Config σ} {I : Config σ → Prop}
    (hI : ∀ n c c', after loader n (.running c₀) = .running c → I c → c.step loader = .running c' → I c') (h : I c₀)
    {n : Nat} (hafter : after loader n (.running c₀) = .running c) : I c := by
  induction n generalizing c with
  | zero =>
    cases hafter
    exact h
  | succ n ih =>
    rw [after_succ] at hafter
    rcases hn : after loader n (.running c₀) with c₁ | e
    · rw [hn] at hafter
      exact hI n c₁ c hn (ih hn) hafter
    · rw [hn] at hafter
      cases hafter

end Machine

section Render

variable {loader : Loader σ} {t : Template} {ctx : Context} {session : Session σ} {out : String}

/-- A render that gives a text ends in the template that is rendered, which has written it. -/
theorem Template.exists_last_of_render (hout : ((t.render loader).run.run (ctx, session)).1 = .ok out) :
    ∃ n c, Progress.after loader n (.running (.start t ctx session)) = .running c ∧ c.waiting = [] ∧
      out = c.active.ctx.buffer := by
  obtain ⟨n, hn⟩ := Config.start_comes loader t ctx session
  obtain ⟨k, c, hc, hlast⟩ := Progress.exists_last hn
  exact ⟨k, c, hc, (Config.of_step_eq_ok hlast hout).2⟩

/-- A literal text of one of the templates that are rendered, or a value escaped for HTML. -/
def Template.Piece (loader : Loader σ) (t : Template) (ctx : Context) (session : Session σ) (piece : String) : Prop :=
  (∃ u, t.Renders loader ctx session u ∧ ∃ l ∈ u.program.instructions, l.instruction = .literal piece) ∨
    ∃ v : Value, piece = Text.html v.text

variable (hescape : ctx.escape = Text.html)
  (hraw : ∀ u, t.Renders loader ctx session u → ∀ l ∈ u.program.instructions, l.isRaw = false)

include hescape hraw

/-- If no template has a raw expression, pieces are collected as long as the machine runs. -/
theorem Template.collecting {n : Nat} {c : Config σ}
    (hafter : Progress.after loader n (.running (.start t ctx session)) = .running c) :
    Collecting (t.Piece loader ctx session) ctx.buffer c.active c.waiting := by
  have hstart : Collecting (t.Piece loader ctx session) ctx.buffer (Config.start t ctx session).active [] :=
    ⟨hescape, "", (String.append_empty ..).symm, .empty _⟩
  refine Progress.invariant_of_reached (I := fun c => Collecting (t.Piece loader ctx session) ctx.buffer c.active
    c.waiting) (fun n c c' hn hc hstep => ?_) hstart hafter
  have hrenders : t.Renders loader ctx session c.active.template := ⟨n, c, hn, rfl⟩
  refine hc.step (fun v => .inr ⟨v, rfl⟩) (fun op hop => ?_) hstep
  exact Program.yields (fun l hl text hl' => .inl ⟨_, hrenders, l, hl, hl'⟩) (hraw _ hrenders) hop

/-- A render without raw expressions gives pieces. -/
theorem Template.madeOf_of_render (hout : ((t.render loader).run.run (ctx, session)).1 = .ok out) :
    ∃ text, out = ctx.buffer ++ text ∧ MadeOf (t.Piece loader ctx session) text := by
  obtain ⟨n, c, hc, hwaiting, rfl⟩ := exists_last_of_render hout
  have hcollecting := collecting hescape hraw hc
  rw [hwaiting] at hcollecting
  exact hcollecting.buffer

end Render

/-! ## Main result -/

/-- **No raw markup comes from data.** HTML text holds none of the characters that have a meaning in HTML but the
ampersand, each ampersand in it begins one of five entities, and decoding these gives back the text, so different texts
are different in HTML. If none of the templates of a render has a raw expression, and text is escaped for HTML, then
what is rendered is a sequence of literal texts of these templates and of values in HTML, behind what had been written
before. -/
theorem no_raw_markup :
    (∀ text : String,
      (∀ c ∈ (Text.html text).toList, c ∉ ['<', '>', '"', '\'']) ∧
      (∀ before after, (Text.html text).toList = before ++ '&' :: after →
        ∃ e ∈ Text.entities, e.1.toList <+: '&' :: after) ∧
      Text.decode (Text.html text) = text) ∧
    Function.Injective Text.html ∧
    ∀ (loader : Loader σ) (t : Template) (ctx : Context) (session : Session σ), ctx.escape = Text.html →
      (∀ u, t.Renders loader ctx session u → ∀ l ∈ u.program.instructions, l.isRaw = false) →
      ∀ out, ((t.render loader).run.run (ctx, session)).1 = .ok out →
        ∃ pieces : List String, out = ctx.buffer ++ String.join pieces ∧
          ∀ piece ∈ pieces, t.Piece loader ctx session piece := by
  refine ⟨fun text => ?_, Text.html_injective, fun loader t ctx session hescape hraw out hout => ?_⟩
  · exact ⟨Text.html_safe text, fun _ _ => Text.html_entity_of_ampersand, Text.decode_html text⟩
  · obtain ⟨text, hbuffer, pieces, rfl, hpieces⟩ := Template.madeOf_of_render hescape hraw hout
    exact ⟨pieces, hbuffer, hpieces⟩

/-- The templates that are active in so many operations. -/
def Progress.templates (loader : Loader σ) : Nat → Progress σ → List Template
  | n + 1, running c => c.active.template :: templates loader n (c.step loader)
  | _, _ => []

/-- A template that is active in the course of a render is so before the end. -/
theorem Progress.mem_templates {loader : Loader σ} {n k : Nat} {s : Progress σ} {e : Ending σ} {c : Config σ}
    (hended : after loader n s = .ended e) (hrunning : after loader k s = .running c) :
    c.active.template ∈ templates loader n s := by
  induction n generalizing s k with
  | zero =>
    rw [show s = .ended e from hended, after_ended] at hrunning
    cases hrunning
  | succ n ih =>
    rcases s with c₀ | e₀
    · cases k with
      | zero =>
        cases hrunning
        exact List.mem_cons_self
      | succ k => exact List.mem_cons_of_mem _ (ih hended hrunning)
    · rw [after_ended] at hrunning
      cases hrunning

/-- A list of texts that hold markup and entities, and a template of a computed name that is included for each. -/
theorem no_raw_markup_list :
    let page := "<ul>%\x7b for x in ['<b>', '&lt;'] \x7d%\x7b include 'it' + 'em' \x7d%\x7b end \x7d</ul>"
    let loader : Loader Unit := .direct (.inMemory .firstPass [("item", "<li>$$\x7b x \x7d</li>"), ("page", page)])
    let ctx := Context.fresh (fun _ => none) [] Text.html true
    let out := "<ul><li>&lt;b&gt;</li><li>&amp;lt;</li></ul>"
    Text.decode (Text.html "&lt;") = "&lt;" ∧
      ∃ t session, (loader.template "page").run.run ⟨(), []⟩ = (.ok t, session) ∧
        (∀ u, t.Renders loader ctx ⟨(), []⟩ u → ∀ l ∈ u.program.instructions, l.isRaw = false) ∧
        ((t.render loader).run.run (ctx, ⟨(), []⟩)).1 = .ok out ∧
        ∃ pieces : List String, out = ctx.buffer ++ String.join pieces ∧
          ∀ piece ∈ pieces, t.Piece loader ctx ⟨(), []⟩ piece := by
  intro page loader ctx out
  -- the machine is run, since rendering itself does not reduce
  obtain ⟨t, session, hload, hg⟩ := exists_run_eq_ok (s := ⟨(), []⟩) (x := loader.template "page")
    (g := fun t =>
      let start := Progress.running (.start t ctx ⟨(), []⟩)
      ((Progress.templates loader 40 start).all fun u => u.program.instructions.all fun l => !l.isRaw,
        (Progress.after loader 40 start).text?))
    (b := (true, some out)) (by decide +kernel)
  obtain ⟨hall, htext⟩ := Prod.mk.inj hg
  obtain ⟨rest, hended⟩ := Progress.of_text? htext
  have hraw (u : Template) (hu : t.Renders loader ctx ⟨(), []⟩ u) : ∀ l ∈ u.program.instructions, l.isRaw = false := by
    obtain ⟨k, c, hc, rfl⟩ := hu
    have hmem := List.all_eq_true.mp hall _ (Progress.mem_templates hended hc)
    simpa using hmem
  obtain ⟨ctx', session', hrender⟩ := Template.run_render_of_text? htext
  have hout := congrArg Prod.fst hrender
  obtain ⟨hhtml, -, hpieces⟩ := no_raw_markup (σ := Unit)
  exact ⟨(hhtml "&lt;").2.2, t, session, hload, hraw, hout, hpieces loader t ctx ⟨(), []⟩ rfl hraw out hout⟩

end Stencil
