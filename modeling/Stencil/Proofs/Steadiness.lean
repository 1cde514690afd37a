import Stencil.Proofs.Fetching
import Stencil.Proofs.Recorded

/-!
# Steady work

A loader puts on record what it is asked for (`Sources.Tells`). Work is `Even` if it does the same in every session,
whatever has been asked before. The `Course` of even work on a lineage is how it ends, the lineage that it leaves and
what it asks.

Even work is `Steady` if it does one of two things in every lineage. It rests, and then it asks for nothing and goes by
no parent that is still to be read. Or it waits, and then it fetches the next parent and begins again. All that a block
set can be asked is steady (`ancestry_steady`, `Steady.bind`), so its outcome is the same in a lineage that more parents
have been fetched for (`Steady.outcome_eq`), and its course is made up of fetches (`Steady.goes`).
-/

namespace Stencil

variable {κ τ α β γ : Type}

/-! ## Sessions with a record -/

/-- The sources give what a function reads, each under the name that it is asked for, and put on record that they have
been asked. -/
structure Sources.Tells (sources : Sources (List Request)) (read : String → Except Error Source) : Prop where
  run_eq : ∀ name s, (sources.source name).run.run s = (read name, ⟨s.state ++ [.source name], s.warnings⟩)
  name_eq : ∀ {name source}, read name = .ok source → source.name = name

theorem Sources.Reads.tells {sources : Sources (List Request)} {read : String → Except Error Source}
    (h : sources.Reads read) : sources.recorded.Tells read where
  run_eq name s := by
    have hnote : (Request.note (.source name)).run.run s = (.ok (), ⟨s.state ++ [.source name], s.warnings⟩) := rfl
    unfold recorded
    rw [run_bind_of_ok hnote, h.source_eq]
    rfl
  name_eq := h.name_eq

/-- The second session is like the first one, with other requests put in front, and with any warnings. -/
def Session.Behind (u : List Request) (s t : Session (List Request)) : Prop := t.state = u ++ s.state

/-- So it is with the sessions of two works, which are in the same state. -/
def Work.Behind (u : List Request) (s t : κ × Session (List Request)) : Prop := s.1 = t.1 ∧ s.2.Behind u t.2

/-- What the computation does is not changed by requests put in front. -/
def Even (S : List Request → τ → τ → Prop) (x : ExceptT Error (StateM τ) α) : Prop := ∀ u, Alike .same (S u) Eq x x

section Even

variable {S : List Request → τ → τ → Prop}

theorem Error.agrees_refl (L : Lines) (e : Error) : e.Agrees L e := by
  cases e with
  | unknownTemplate => exact .unknownTemplate ..
  | unreadable => exact .unreadable _
  | unterminated origin fault => exact .unterminated origin fault.kind (L.refl _)
  | compilation => exact .compilation _ ⟨rfl, L.refl _⟩
  | superWithoutParent => exact .superWithoutParent _ ⟨rfl, L.refl _⟩
  | conversion => exact .conversion ..
  | render => exact .render _ ⟨rfl, L.refl _⟩

theorem Even.pure (a : α) : Even S (pure a : ExceptT Error (StateM τ) α) := fun _ => Alike.pure rfl

theorem Even.throw (e : Error) : Even S (throw e : ExceptT Error (StateM τ) α) :=
  fun _ => Alike.throw (Error.agrees_refl _ e)

theorem Even.bind {x : ExceptT Error (StateM τ) α} {f : α → ExceptT Error (StateM τ) β} (h : Even S x)
    (hf : ∀ a, Even S (f a)) : Even S (x >>= f) := fun u => (h u).bind_eq fun a => hf a u

theorem Even.mapM {f : γ → ExceptT Error (StateM τ) α} (hf : ∀ c, Even S (f c)) (cs : List γ) :
    Even S (cs.mapM f) := by
  induction cs with
  | nil =>
    rw [List.mapM_nil]
    exact .pure []
  | cons c cs ih =>
    rw [List.mapM_cons]
    exact (hf c).bind fun a => ih.bind fun as => .pure (a :: as)

theorem Even.foldlM {f : α → γ → ExceptT Error (StateM τ) α} (hf : ∀ a c, Even S (f a c)) (cs : List γ) (a : α) :
    Even S (cs.foldlM f a) := by
  induction cs generalizing a with
  | nil => exact .pure a
  | cons c cs ih =>
    rw [List.foldlM_cons]
    exact (hf a c).bind ih

end Even

section Work

theorem Load.even_ofExcept (x : Except Error α) : Even Session.Behind (ofExcept x) := by
  intro u s t hs
  rcases x with e | a
  · exact ⟨.error (Error.agrees_refl _ e), hs⟩
  · exact ⟨.ok rfl, hs⟩

theorem Load.even_warn (w : Warning) : Even Session.Behind (warn w) := fun _ _ _ hs => ⟨.ok rfl, hs⟩

theorem Sources.Tells.even {sources : Sources (List Request)} {read : String → Except Error Source}
    (h : sources.Tells read) (name : String) : Even Session.Behind (sources.source name) := by
  intro u s t hs
  rw [h.run_eq, h.run_eq]
  refine ⟨(Load.even_ofExcept (read name) u s t hs).1, ?_⟩
  rw [Session.Behind] at hs ⊢
  rw [hs, List.append_assoc]

theorem Work.even_own : Even Work.Behind (Work.own : Work κ (List Request) κ) := fun _ _ _ hs => ⟨.ok hs.1, hs⟩

theorem Work.even_update (f : κ → κ) : Even Work.Behind (Work.update f : Work κ (List Request) Unit) :=
  fun _ _ _ hs => ⟨.ok rfl, congrArg f hs.1, hs.2⟩

theorem Even.ofLoad {x : Load (List Request) α} (h : Even Session.Behind x) :
    Even Work.Behind (Work.ofLoad x : Work κ (List Request) α) := by
  intro u ⟨k, s⟩ ⟨k', t⟩ ⟨hk, hs⟩
  obtain ⟨hr, hs'⟩ := h u s t hs
  rcases hx : x.run.run s with ⟨r, s'⟩
  rcases hy : x.run.run t with ⟨r', t'⟩
  rw [hx, hy] at hr hs'
  rw [Work.run_ofLoad k hx, Work.run_ofLoad k' hy]
  exact ⟨hr, hk, hs'⟩

theorem Even.runFrom {x : Work κ (List Request) α} (h : Even Work.Behind x) (k : κ) :
    Even Session.Behind (x.runFrom k) := by
  intro u s t hs
  obtain ⟨hr, hk, hs'⟩ := h u (k, s) (k, t) ⟨rfl, hs⟩
  rcases hx : x.run.run (k, s) with ⟨r, l, s'⟩
  rcases hy : x.run.run (k, t) with ⟨r', l', t'⟩
  rw [hx, hy] at hr hk hs'
  rw [Work.run_runFrom hx, Work.run_runFrom hy]
  exact ⟨hr.map fun a b hab => Prod.ext hab hk, hs'⟩

end Work

/-! ## Searching is even -/

section Search

variable {sources : Sources (List Request)} {read : String → Except Error Source} {ancestor : Ancestry (List Request)}

/-- Ancestors are found in the same way in every session. -/
def Ancestry.Even (ancestor : Ancestry (List Request)) : Prop := ∀ stops, Stencil.Even Work.Behind (ancestor stops)

theorem parentBlock_even (h : Ancestry.Even ancestor) (name : BlockName) (line : Nat) :
    Even Work.Behind (parentBlock ancestor name line) := by
  unfold parentBlock
  refine Work.even_own.bind fun l => ?_
  cases name with
  | named name =>
    have hrest := (h fun layer => layer.settles (.named name)).bind fun r =>
      .pure (r.bind fun layer => layer.block? (.named name))
    dsimp only
    split
    · exact (Even.throw _).bind fun _ => hrest
    · exact hrest
  | anonymous place =>
    have hrest := (h fun _ => true).bind fun _ => .pure (none : Option Block)
    dsimp only
    split
    · exact (Even.throw _).bind fun _ => hrest
    · exact hrest

theorem Draft.add_even (h : Ancestry.Even ancestor) (d : Draft) (node : Node) :
    Even Session.Behind (d.add ancestor node) := by
  unfold add
  split
  · split
    · exact (Load.even_warn _).bind fun _ => .pure _
    · exact .pure _
  · split
    · exact (Load.even_warn _).bind fun _ => .pure _
    · exact .pure _
  · exact .pure _
  · exact ((parentBlock_even h _ _).runFrom _).bind fun _ => .pure _
  · exact .pure _

theorem Draft.build_even (h : Ancestry.Even ancestor) (chain : List String) (origin : String) (nodes : List Node) :
    Even Session.Behind (build ancestor chain origin nodes) := Even.foldlM (add_even h) nodes _

theorem Lineage.fetch_even (hsources : sources.Tells read) (h : Ancestry.Even ancestor) (l : Lineage) :
    Even Session.Behind (l.fetch sources ancestor) := by
  unfold fetch
  split
  · exact .pure _
  · next origin p _ =>
    have hread := (hsources.even p.name).bind fun source =>
      (Load.even_ofExcept (source.tokens sources.markup)).bind fun tokens =>
        (Draft.build_even h (l.names ++ [p.name]) source.origin (Node.ofTokens tokens)).bind fun d =>
          .pure (⟨source.dependency, d.layer⟩ :: d.lineage.ancestors)
    split
    · exact (Even.throw _).bind fun _ => hread
    · exact hread

theorem Ascent.fetch_even (hsources : sources.Tells read) (h : Ancestry.Even ancestor) :
    Even Work.Behind (Ascent.fetch sources ancestor) :=
  Work.even_own.bind fun l => (l.fetch_even hsources h).ofLoad.bind fun _ => Work.even_update _

theorem nearest_even (h : sources.Tells read) (steps : Nat) : Ancestry.Even (nearest sources steps) := by
  induction steps with
  | zero => exact fun _ => .pure none
  | succ steps ih =>
    rintro stops u ⟨l, s⟩ ⟨_, t⟩ ⟨rfl, hs⟩
    dsimp only
    rcases settled_or_waits sources stops l with ⟨r, hr⟩ | ⟨hf, hnext⟩
    · rw [hr, hr]
      exact ⟨.ok rfl, rfl, hs⟩
    · rw [run_nearest_of_waits hf hnext, run_nearest_of_waits hf hnext]
      exact (Ascent.fetch_even h ih).bind (fun _ => ih stops) u _ _ ⟨rfl, hs⟩

theorem ancestry_even (h : sources.Tells read) : Ancestry.Even (ancestry sources) := nearest_even h _

end Search

/-! ## Courses -/

/-- How work on a lineage ends, the lineage that it leaves, and what it asks of the loader. -/
structure Course (α : Type) where
  outcome : Except Error α
  lineage : Lineage
  asked : List Request

/-- The course that begins with other requests. -/
def Course.behind (asked : List Request) (c : Course α) : Course α := { c with asked := asked ++ c.asked }

namespace Ascent

/-- The course of the work from a lineage on, where nothing has been asked before. -/
def course (x : Ascent (List Request) α) (l : Lineage) : Course α :=
  let (outcome, l', s) := x.run.run (l, ⟨[], []⟩)
  ⟨outcome, l', s.state⟩

section Course

variable {x y : Ascent (List Request) α} {f : α → Ascent (List Request) β} {l l' : Lineage} {r : Except Error α}
  {a : α} {e : Error} {asked : List Request}

theorem course_congr (h : ∀ s, x.run.run (l, s) = y.run.run (l, s)) : course x l = course y l := by
  unfold course
  rw [h]

/-- Even work takes its course in every session. -/
theorem run_of_course (hx : Even Work.Behind x) (h : course x l = ⟨r, l', asked⟩) (s : Session (List Request)) :
    ∃ warnings, x.run.run (l, s) = (r, l', ⟨s.state ++ asked, warnings⟩) := by
  obtain ⟨hr, hl, hs⟩ := hx s.state (l, ⟨[], []⟩) (l, s) ⟨rfl, (List.append_nil _).symm⟩
  unfold course at h
  rcases hrun : x.run.run (l, ⟨[], []⟩) with ⟨r₀, l₀, s₀⟩
  rcases hrun' : x.run.run (l, s) with ⟨r₁, l₁, s₁⟩
  rw [hrun] at h
  rw [hrun, hrun'] at hr hl hs
  cases h
  cases hr.eq fun _ _ => id
  cases hl
  exact ⟨s₁.warnings, by rw [← hs]⟩

theorem course_bind_of_ok (hf : Even Work.Behind (f a)) (h : course x l = ⟨.ok a, l', asked⟩) :
    course (x >>= f) l = (course (f a) l').behind asked := by
  unfold course at h
  rcases hrun : x.run.run (l, ⟨[], []⟩) with ⟨r, l₀, s⟩
  rw [hrun] at h
  cases h
  rcases hc : course (f a) l' with ⟨r, l'', asked⟩
  obtain ⟨warnings, hrest⟩ := run_of_course hf hc s
  unfold course
  rw [run_bind_of_ok hrun, hrest]
  rfl

theorem course_bind_of_error (h : course x l = ⟨.error e, l', asked⟩) :
    course (x >>= f) l = ⟨.error e, l', asked⟩ := by
  unfold course at h ⊢
  rcases hrun : x.run.run (l, ⟨[], []⟩) with ⟨r, l₀, s⟩
  rw [hrun] at h
  cases h
  rw [run_bind_of_error hrun]

theorem course_bind_congr (hf : ∀ a, Even Work.Behind (f a)) (h : course x l = course y l) :
    course (x >>= f) l = course (y >>= f) l := by
  rcases hx : course x l with ⟨e | a, l', asked⟩
  · rw [course_bind_of_error hx, course_bind_of_error (h ▸ hx)]
  · rw [course_bind_of_ok (hf a) hx, course_bind_of_ok (hf a) (h ▸ hx)]

end Course

end Ascent

/-! ## Fetching along a lineage -/

/-- Fetches the next parent. -/
def fetchNext (sources : Sources (List Request)) : Ascent (List Request) Unit := Ascent.fetch sources (ancestry sources)

/-- There is a next parent, and it can be fetched. This asks the loader for something and leaves another lineage. -/
structure Lineage.Fetches (sources : Sources (List Request)) (l : Lineage) (asked : List Request) (l' : Lineage) :
    Prop where
  next : l.next?.isSome
  course : Ascent.course (fetchNext sources) l = ⟨.ok (), l', asked⟩

/-- The next parent cannot be fetched. The lineage stays as it is. -/
def Lineage.Stuck (sources : Sources (List Request)) (l : Lineage) (e : Error) (asked : List Request) : Prop :=
  Ascent.course (fetchNext sources) l = ⟨.error e, l, asked⟩

/-- A lineage for which more and more parents are fetched. -/
inductive Lineage.Rises (sources : Sources (List Request)) : Lineage → Lineage → Prop
  | refl (l : Lineage) : Rises sources l l
  | head {l l' l'' : Lineage} {asked : List Request} :
    l.Fetches sources asked l' → Rises sources l' l'' → Rises sources l l''

section Fetches

variable {sources : Sources (List Request)} {read : String → Except Error Source} {l l' l'' : Lineage}
  {asked : List Request} {e : Error}

/-- What the load of the next parent comes to, and what the lineage becomes by it. -/
theorem course_fetchNext (sources : Sources (List Request)) (l : Lineage) :
    (∃ as s, (l.fetch sources (ancestry sources)).run.run ⟨[], []⟩ = (.ok as, s) ∧
      Ascent.course (fetchNext sources) l = ⟨.ok (), l.extend as, s.state⟩) ∨
    ∃ e s, (l.fetch sources (ancestry sources)).run.run ⟨[], []⟩ = (.error e, s) ∧ l.Stuck sources e s.state := by
  rcases hrun : (l.fetch sources (ancestry sources)).run.run ⟨[], []⟩ with ⟨e | as, s⟩
  · refine .inr ⟨e, s, rfl, ?_⟩
    rw [Lineage.Stuck, Ascent.course, fetchNext, Ascent.run_fetch_of_error hrun]
  · refine .inl ⟨as, s, rfl, ?_⟩
    rw [Ascent.course, fetchNext, Ascent.run_fetch_of_ok hrun]

theorem Lineage.fetches_or_stuck (sources : Sources (List Request)) (hnext : l.next?.isSome) :
    (∃ l' asked, l.Fetches sources asked l') ∨ ∃ e asked, l.Stuck sources e asked := by
  rcases course_fetchNext sources l with ⟨as, s, -, h⟩ | ⟨e, s, -, h⟩
  · exact .inl ⟨l.extend as, s.state, hnext, h⟩
  · exact .inr ⟨e, s.state, h⟩

theorem Lineage.Fetches.exists_run (h : l.Fetches sources asked l') :
    ∃ as s, (l.fetch sources (ancestry sources)).run.run ⟨[], []⟩ = (.ok as, s) ∧ l' = l.extend as ∧
      asked = s.state := by
  rcases course_fetchNext sources l with ⟨as, s, hrun, h'⟩ | ⟨e, s, -, h'⟩
  · rw [h.course] at h'
    cases h'
    exact ⟨as, s, hrun, rfl, rfl⟩
  · rw [Stuck, h.course] at h'
    cases h'

theorem Lineage.Stuck.exists_run (h : l.Stuck sources e asked) :
    ∃ s, (l.fetch sources (ancestry sources)).run.run ⟨[], []⟩ = (.error e, s) ∧ asked = s.state := by
  rcases course_fetchNext sources l with ⟨as, s, -, h'⟩ | ⟨e, s, hrun, h'⟩
  · rw [h] at h'
    cases h'
  · rw [Stuck, h] at h'
    cases h'
    exact ⟨s, hrun, rfl⟩

theorem Lineage.Rises.trans (h : l.Rises sources l') (h' : l'.Rises sources l'') : l.Rises sources l'' := by
  induction h with
  | refl => exact h'
  | head hfetches _ ih => exact .head hfetches (ih h')

/-- Where the next parent cannot be fetched, the lineage does not rise. -/
theorem Lineage.Rises.eq_of_stuck (h : l.Rises sources l') (hl : l.Stuck sources e asked) : l' = l := by
  cases h with
  | refl => rfl
  | head hfetches =>
    have hcourse := hfetches.course
    rw [hl] at hcourse
    cases hcourse

/-- Fetching comes to an end, so what holds of a lineage whenever it holds of the one that is fetched holds of all. -/
theorem Lineage.fetching_induction {P : Lineage → Prop} (sources : Sources (List Request))
    (h : ∀ l : Lineage, (∀ l' asked, l.Fetches sources asked l' → P l') → P l) (l : Lineage) : P l := by
  induction hn : maxExtends - l.names.length using Nat.strong_induction_on generalizing l with
  | _ n ih =>
    refine h l fun l' asked hl => ih _ ?_ l' rfl
    obtain ⟨as, s, hrun, rfl, -⟩ := hl.exists_run
    have := length_lt_of_fetch hl.next hrun
    omega

end Fetches

/-! ## Steady work -/

namespace Ascent

/-- The work rests on the lineage: it asks for nothing, and does the same once the next parent has been fetched. -/
def Rests (sources : Sources (List Request)) (x : Ascent (List Request) α) (l : Lineage) : Prop :=
  ∃ r, course x l = ⟨r, l, []⟩ ∧ ∀ l' asked, l.Fetches sources asked l' → course x l' = ⟨r, l', []⟩

/-- The work waits for the next parent: it does what fetching that parent and then the same work does. -/
def Waits (sources : Sources (List Request)) (x : Ascent (List Request) α) (l : Lineage) : Prop :=
  l.next?.isSome ∧ course x l = course (fetchNext sources >>= fun _ => x) l

/-- Even work that rests or waits in every lineage. -/
structure Steady (sources : Sources (List Request)) (x : Ascent (List Request) α) : Prop where
  even : Even Work.Behind x
  rests_or_waits : ∀ l, Rests sources x l ∨ Waits sources x l

section Steady

variable {sources : Sources (List Request)} {read : String → Except Error Source} {x : Ascent (List Request) α}
  {f : α → Ascent (List Request) β} {l l' : Lineage} {asked : List Request} {e : Error}

theorem Waits.course_of_fetches (hx : Even Work.Behind x) (h : Waits sources x l) (hl : l.Fetches sources asked l') :
    course x l = (course x l').behind asked := by
  rw [h.2, course_bind_of_ok hx hl.course]

theorem Waits.course_of_stuck (h : Waits sources x l) (hl : l.Stuck sources e asked) :
    course x l = ⟨.error e, l, asked⟩ := by
  rw [h.2, course_bind_of_error hl]

/-- Work rests or waits if other work does that takes the same course, before and after the next parent is fetched. -/
theorem rests_or_waits_of_course_eq {y : Ascent (List Request) α} (hx : Even Work.Behind x) (hy : Steady sources y)
    (h : course x l = course y l) (h' : ∀ l' asked, l.Fetches sources asked l' → course x l' = course y l') :
    Rests sources x l ∨ Waits sources x l := by
  rcases hy.rests_or_waits l with ⟨r, hr, hrest⟩ | hwaits
  · exact .inl ⟨r, h.trans hr, fun l' asked hl => (h' l' asked hl).trans (hrest l' asked hl)⟩
  · refine .inr ⟨hwaits.1, ?_⟩
    rw [h]
    rcases Lineage.fetches_or_stuck sources hwaits.1 with ⟨l', asked, hl⟩ | ⟨e, asked, hl⟩
    · rw [hwaits.course_of_fetches hy.even hl, course_bind_of_ok (f := fun _ => x) hx hl.course, h' l' asked hl]
    · rw [hwaits.course_of_stuck hl, course_bind_of_error hl]

theorem Steady.pure (a : α) : Steady sources (pure a) := ⟨.pure a, fun _ => .inl ⟨.ok a, rfl, fun _ _ _ => rfl⟩⟩

/-- A load that asks for nothing and always ends in the same way. -/
theorem Steady.ofLoad {x : Load (List Request) α} {r : Except Error α}
    (h : ∀ s, ∃ warnings, x.run.run s = (r, ⟨s.state, warnings⟩)) : Steady sources (Work.ofLoad x) := by
  have hcourse (l : Lineage) : course (Work.ofLoad x) l = ⟨r, l, []⟩ := by
    obtain ⟨warnings, hrun⟩ := h ⟨[], []⟩
    rw [course, Work.run_ofLoad l hrun]
  have heven : Even Session.Behind x := by
    intro u s t hs
    obtain ⟨w, hrun⟩ := h s
    obtain ⟨w', hrun'⟩ := h t
    rw [hrun, hrun']
    exact ⟨(Load.even_ofExcept r u s t hs).1, hs⟩
  exact ⟨heven.ofLoad, fun l => .inl ⟨r, hcourse l, fun l' _ _ => hcourse l'⟩⟩

theorem Steady.bind (h : Steady sources x) (hf : ∀ a, Steady sources (f a)) :
    Steady sources (x >>= f) := by
  have heven (a : α) := (hf a).even
  refine ⟨h.even.bind heven, fun l => ?_⟩
  rcases h.rests_or_waits l with ⟨e | a, hx, hnext⟩ | ⟨hsome, hx⟩
  · exact .inl ⟨.error e, course_bind_of_error hx, fun l' asked hl => course_bind_of_error (hnext l' asked hl)⟩
  · -- the first part rests, so it is the second one that counts
    exact rests_or_waits_of_course_eq (h.even.bind heven) (hf a) (course_bind_of_ok (heven a) hx)
      fun l' asked hl => course_bind_of_ok (heven a) (hnext l' asked hl)
  · refine .inr ⟨hsome, ?_⟩
    rw [course_bind_congr heven hx, bind_assoc]

theorem Steady.mapM {f : γ → Ascent (List Request) α} (hf : ∀ c, Steady sources (f c)) (cs : List γ) :
    Steady sources (cs.mapM f) := by
  induction cs with
  | nil =>
    rw [List.mapM_nil]
    exact .pure []
  | cons c cs ih =>
    rw [List.mapM_cons]
    exact (hf c).bind fun a => ih.bind fun as => .pure (a :: as)

/-- Work that ends in the same way before and after the next parent is fetched. -/
theorem Rests.outcome_eq (h : Rests sources x l) (hl : l.Fetches sources asked l') :
    (course x l).outcome = (course x l').outcome := by
  obtain ⟨r, hr, hnext⟩ := h
  rw [hr, hnext l' asked hl]

/-- **Steady work ends in the same way, however many parents have been fetched.** -/
theorem Steady.outcome_eq (h : Steady sources x) (hl : l.Rises sources l') :
    (course x l).outcome = (course x l').outcome := by
  induction hl with
  | refl => rfl
  | @head l l₁ l' asked hfetches _ ih =>
    rw [← ih]
    rcases h.rests_or_waits l with hrests | hwaits
    · exact hrests.outcome_eq hfetches
    · rw [hwaits.course_of_fetches h.even hfetches]
      rfl

/-- The course of steady work: parents are fetched until it rests, or until the next one cannot be fetched. -/
inductive Goes (sources : Sources (List Request)) : Lineage → Course α → Prop
  | rests (l : Lineage) (r : Except Error α) : Goes sources l ⟨r, l, []⟩
  | stuck {l : Lineage} {e : Error} {asked : List Request} :
    l.Stuck sources e asked → Goes sources l ⟨.error e, l, asked⟩
  | fetches {l l' : Lineage} {asked : List Request} {c : Course α} :
    l.Fetches sources asked l' → Goes sources l' c → Goes sources l (c.behind asked)

theorem Steady.goes (h : Steady sources x) (l : Lineage) : Goes sources l (course x l) := by
  induction l using Lineage.fetching_induction sources with
  | h l ih =>
    rcases h.rests_or_waits l with ⟨r, hr, -⟩ | hwaits
    · rw [hr]
      exact .rests l r
    · rcases Lineage.fetches_or_stuck sources hwaits.1 with ⟨l', asked, hl⟩ | ⟨e, asked, hl⟩
      · rw [hwaits.course_of_fetches h.even hl]
        exact .fetches hl (ih l' asked hl)
      · rw [hwaits.course_of_stuck hl]
        exact .stuck hl

theorem Goes.rises {c : Course α} (h : Goes sources l c) : l.Rises sources c.lineage := by
  induction h with
  | rests l | stuck => exact .refl _
  | fetches hl _ ih => exact .head hl ih

end Steady

end Ascent

/-! ## What a block set can be asked -/

section BlockSet

open Ascent (Steady)

variable {sources : Sources (List Request)} {read : String → Except Error Source}

/-- Looking for an ancestor is steady. -/
theorem ancestry_steady (h : sources.Tells read) (stops : Layer → Bool) : Steady sources (ancestry sources stops) := by
  refine ⟨ancestry_even h stops, fun l => ?_⟩
  rcases hf : l.find? stops with _ | layer
  · rcases hnext : l.next? with _ | o
    · refine .inl ⟨.ok none, ?_, fun l' asked hl => ?_⟩
      · rw [Ascent.course, ancestry, run_nearest_of_next? hf hnext]
      · have := hl.next
        rw [hnext] at this
        cases this
    · have hsome : l.next?.isSome := by rw [hnext]; rfl
      exact .inr ⟨hsome, Ascent.course_congr fun s => run_ancestry_of_waits sources stops s hf hsome⟩
  · refine .inl ⟨.ok (some layer), ?_, fun l' asked hl => ?_⟩
    · rw [Ascent.course, ancestry, run_nearest_of_find? hf]
    · obtain ⟨as, s, -, rfl, -⟩ := hl.exists_run
      rw [Ascent.course, ancestry, run_nearest_of_find? (Lineage.find?_extend hf)]

/-- Without a parent, its block cannot be called. -/
theorem course_parentBlock_of_isNone (ancestor : Ancestry (List Request)) (name : BlockName) (line : Nat) {l : Lineage}
    (h : l.parent.isNone) : Ascent.course (parentBlock ancestor name line) l =
      ⟨.error (.superWithoutParent ⟨l.origin, line⟩ name.describe), l, []⟩ := by
  have hown : (Work.own : Ascent (List Request) Lineage).run.run (l, ⟨[], []⟩) = (.ok l, l, ⟨[], []⟩) := rfl
  unfold parentBlock Ascent.course
  rw [run_bind_of_ok hown]
  simp only [h, ↓reduceIte]
  cases name <;> rfl

/-- With a parent, its block is searched for. -/
theorem course_parentBlock_of_isSome (ancestor : Ancestry (List Request)) (name : BlockName) (line : Nat) {l : Lineage}
    (h : l.parent.isSome) : Ascent.course (parentBlock ancestor name line) l =
      Ascent.course (do return name.called (← ancestor name.sought)) l := by
  have hnone : l.parent.isNone = false := by rw [Option.isNone_eq_false_iff]; exact h
  refine Ascent.course_congr fun s => ?_
  have hown : (Work.own : Ascent (List Request) Lineage).run.run (l, s) = (.ok l, l, s) := rfl
  unfold parentBlock
  rw [run_bind_of_ok hown]
  simp only [hnone, Bool.false_eq_true, ↓reduceIte]
  cases name <;> rfl

theorem parentBlock_steady (h : sources.Tells read) (name : BlockName) (line : Nat) :
    Steady sources (parentBlock (ancestry sources) name line) := by
  have heven := parentBlock_even (ancestry_even h) name line
  have hcalled : Steady sources (do return name.called (← ancestry sources name.sought)) :=
    (ancestry_steady h _).bind fun _ => .pure _
  refine ⟨heven, fun l => ?_⟩
  by_cases hp : l.parent.isSome
  · refine Ascent.rests_or_waits_of_course_eq heven hcalled (course_parentBlock_of_isSome _ _ _ hp) fun _ _ hl => ?_
    -- the parent is still there once the next one has been fetched
    obtain ⟨as, s, -, rfl, -⟩ := hl.exists_run
    exact course_parentBlock_of_isSome (l := l.extend as) _ _ _ hp
  · have hnone : l.parent.isNone := by simpa using hp
    refine .inl ⟨_, course_parentBlock_of_isNone _ _ _ hnone, fun l' asked hl => ?_⟩
    obtain ⟨as, s, -, rfl, -⟩ := hl.exists_run
    exact course_parentBlock_of_isNone (l := l.extend as) _ _ _ hnone

theorem BlockSet.order_steady (h : sources.Tells read) (set : BlockSet) : Steady sources (set.order sources) :=
  (ancestry_steady h _).bind fun _ => .pure _

theorem BlockSet.block_steady (h : sources.Tells read) (set : BlockSet) (name : BlockName) :
    Steady sources (set.block sources name) := by
  unfold BlockSet.block
  split
  · exact .pure _
  · exact (ancestry_steady h _).bind fun _ => .pure _

theorem BlockSet.gather_steady (h : sources.Tells read) (set : BlockSet) (order : List BlockName) :
    Steady sources (set.gather sources order) := by
  have hparts : Steady sources (do return (← order.mapM (set.instructionsAt sources)).flatten) :=
    (Steady.mapM (fun name => (set.block_steady h name).bind fun _ => .pure _) order).bind fun _ => .pure _
  have hwarn (s : Session (List Request)) : ∃ warnings,
      (set.warnOrphans order).run.run s = (.ok (), ⟨s.state, warnings⟩) := by
    have hstate := (set.ensures_warnOrphans order s).1
    refine ⟨((set.warnOrphans order).run.run s).2.warnings, ?_⟩
    rw [← hstate, ← set.warnOrphans_ok order s]
    rfl
  unfold BlockSet.gather
  split
  · exact (Steady.ofLoad hwarn).bind fun _ => hparts
  · exact hparts

theorem BlockSet.instructions_steady (h : sources.Tells read) (set : BlockSet) :
    Steady sources (set.instructions sources) := (set.order_steady h).bind (set.gather_steady h)

end BlockSet

end Stencil
