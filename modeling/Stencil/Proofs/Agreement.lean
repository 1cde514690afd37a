import Mathlib.Data.List.Forall2
import Stencil.Proofs.Outcome
import Stencil.Template

/-!
# Agreement up to lines

Two texts may have the same tokens on other lines. What is made of such tokens then agrees, up to the lines it speaks of.
Lines are only carried along and counted on, so all of this is said for any way of comparing lines that counting on
respects (`Lines`): any two lines may count as the same (`Lines.any`), or none but equal ones (`Lines.same`).

Every kind of data that holds lines has a relation `Agrees`. Computations are `Alike` if from states that agree they come
to outcomes and states that agree; sequences of them go step by step (`Alike.bind`, `Alike.mapM`, `Alike.foldlM`).
Where only equal lines count as the same, what agrees is equal (`Template.Agrees.eq`, `Outcome.Agrees.eq`).
-/

namespace Stencil

/-! ## Lines -/

/-- A way of comparing lines that counting on respects. -/
structure Lines where
  Agree : Nat → Nat → Prop
  refl : ∀ n, Agree n n
  add : ∀ {a b : Nat} (k : Nat), Agree a b → Agree (a + k) (b + k)

/-- Lines do not matter. -/
def Lines.any : Lines := ⟨fun _ _ => True, fun _ => trivial, fun _ _ => trivial⟩

/-- Lines have to be equal. -/
def Lines.same : Lines := ⟨fun a b => a = b, fun _ => rfl, fun k h => congrArg (· + k) h⟩

/-! ## Data -/

/-- Positions in one template. -/
structure Position.Agrees (L : Lines) (p q : Position) : Prop where
  origin : p.origin = q.origin
  line : L.Agree p.line q.line

/-- The same instruction. -/
structure Located.Agrees (L : Lines) (a b : Located) : Prop where
  instruction : a.instruction = b.instruction
  position : a.position.Agrees L b.position

/-- The same token. -/
structure Token.Agrees (L : Lines) (a b : Token) : Prop where
  content : a.content = b.content
  line : L.Agree a.line b.line

/-- The same node. -/
structure Node.Agrees (L : Lines) (a b : Node) : Prop where
  kind : a.kind = b.kind
  line : L.Agree a.line b.line

/-- The same parent. -/
structure Parent.Agrees (L : Lines) (p q : Parent) : Prop where
  name : p.name = q.name
  line : L.Agree p.line q.line

/-- The same item. -/
inductive Item.Agrees (L : Lines) : Item → Item → Prop
  | node {a b : Node} : a.Agrees L b → Agrees L (.node a) (.node b)
  | super {line line' : Nat} {as bs : List Located} :
    L.Agree line line' → List.Forall₂ (Located.Agrees L) as bs → Agrees L (.super line as) (.super line' bs)

/-- The same block. -/
structure Block.Agrees (L : Lines) (a b : Block) : Prop where
  name : a.name = b.name
  origin : a.origin = b.origin
  items : List.Forall₂ (Item.Agrees L) a.items b.items

/-- The same layer. -/
structure Layer.Agrees (L : Lines) (a b : Layer) : Prop where
  origin : a.origin = b.origin
  parent : Option.Rel (Parent.Agrees L) a.parent b.parent
  blocks : List.Forall₂ (Block.Agrees L) a.blocks b.blocks

/-- The same ancestor. -/
structure Ancestor.Agrees (L : Lines) (a b : Ancestor) : Prop where
  dependency : a.dependency = b.dependency
  layer : a.layer.Agrees L b.layer

/-- The same lineage. -/
structure Lineage.Agrees (L : Lines) (a b : Lineage) : Prop where
  chain : a.chain = b.chain
  origin : a.origin = b.origin
  parent : Option.Rel (Parent.Agrees L) a.parent b.parent
  ancestors : List.Forall₂ (Ancestor.Agrees L) a.ancestors b.ancestors

/-- The same draft. -/
structure Draft.Agrees (L : Lines) (a b : Draft) : Prop where
  lineage : a.lineage.Agrees L b.lineage
  closed : List.Forall₂ (Block.Agrees L) a.closed b.closed
  name : a.name = b.name
  items : List.Forall₂ (Item.Agrees L) a.items b.items

/-- The same block set. -/
structure BlockSet.Agrees (L : Lines) (a b : BlockSet) : Prop where
  lineage : a.lineage.Agrees L b.lineage
  blocks : List.Forall₂ (Block.Agrees L) a.blocks b.blocks

/-- The same program, from instructions that agree. -/
structure Program.Agrees (L : Lines) (p q : Program) : Prop where
  origin : p.origin = q.origin
  instructions : List.Forall₂ (Located.Agrees L) p.instructions q.instructions
  code : p.code = q.code

/-- The same template. -/
structure Template.Agrees (L : Lines) (t u : Template) : Prop where
  name : t.name = u.name
  origin : t.origin = u.origin
  tokens : List.Forall₂ (Token.Agrees L) t.tokens u.tokens
  parents : t.parents = u.parents
  program : t.program.Agrees L u.program

/-- The same failure, put down to the same template. -/
inductive Error.Agrees (L : Lines) : Error → Error → Prop
  | unknownTemplate (roots : List String) (name : String) :
    Agrees L (.unknownTemplate roots name) (.unknownTemplate roots name)
  | unreadable (path : String) : Agrees L (.unreadable path) (.unreadable path)
  | unterminated (origin : String) (kind : TagKind) {line line' : Nat} :
    L.Agree line line' → Agrees L (.unterminated origin ⟨kind, line⟩) (.unterminated origin ⟨kind, line'⟩)
  | compilation {p q : Position} (fault : CompileFault) :
    p.Agrees L q → Agrees L (.compilation p fault) (.compilation q fault)
  | superWithoutParent {p q : Position} (block : String) :
    p.Agrees L q → Agrees L (.superWithoutParent p block) (.superWithoutParent q block)
  | conversion (origin : String) (fault : ConversionFault) :
    Agrees L (.conversion origin fault) (.conversion origin fault)
  | render {p q : Position} (fault : RenderFault) : p.Agrees L q → Agrees L (.render p fault) (.render q fault)

/-- The same warning. -/
inductive Warning.Agrees (L : Lines) : Warning → Warning → Prop
  | duplicateBlock (origin block : String) (previous : Nat) :
    Agrees L (.duplicateBlock origin block previous) (.duplicateBlock origin block previous)
  | repeatedExtends {p q : Position} (previous next : String) :
    p.Agrees L q → Agrees L (.repeatedExtends p previous next) (.repeatedExtends q previous next)
  | orphanBlock (origin block : String) : Agrees L (.orphanBlock origin block) (.orphanBlock origin block)

/-- Sessions in the same state, with the same warnings. -/
structure Session.Agrees {σ : Type} (L : Lines) (s t : Session σ) : Prop where
  state : s.state = t.state
  warnings : List.Forall₂ (Warning.Agrees L) s.warnings t.warnings

/-- Outcomes that agree: two results that are related, or the same failure. -/
inductive Outcome.Agrees {α β : Type} (L : Lines) (R : α → β → Prop) : Except Error α → Except Error β → Prop
  | ok {a : α} {b : β} : R a b → Agrees L R (.ok a) (.ok b)
  | error {e e' : Error} : e.Agrees L e' → Agrees L R (.error e) (.error e')

/-! ## Computations -/

/-- The computations do the same: from related states on they come to outcomes that agree, in related states. -/
def Alike {τ α : Type} (L : Lines) (S : τ → τ → Prop) (R : α → α → Prop) (x y : ExceptT Error (StateM τ) α) : Prop :=
  ∀ s t, S s t → Outcome.Agrees L R (x.run.run s).1 (y.run.run t).1 ∧ S (x.run.run s).2 (y.run.run t).2

/-- The states of two works: their own ones are related, and the sessions agree. -/
def Work.States {κ σ : Type} (L : Lines) (K : κ → κ → Prop) (s t : κ × Session σ) : Prop := K s.1 t.1 ∧ s.2.Agrees L t.2

section Alike

variable {τ α β γ : Type} {L : Lines} {S : τ → τ → Prop} {R : α → α → Prop} {Q : β → β → Prop}

theorem Outcome.Agrees.bind {α' β' : Type} {R : α → α' → Prop} {Q : β → β' → Prop} {x : Except Error α}
    {y : Except Error α'} {f : α → Except Error β} {g : α' → Except Error β'} (h : Agrees L R x y)
    (hf : ∀ a b, R a b → Agrees L Q (f a) (g b)) : Agrees L Q (x >>= f) (y >>= g) := by
  cases h with
  | ok h => exact hf _ _ h
  | error h => exact .error h

theorem Outcome.Agrees.map {α' β' : Type} {R : α → α' → Prop} {Q : β → β' → Prop} {x : Except Error α}
    {y : Except Error α'} {f : α → β} {g : α' → β'} (h : Agrees L R x y) (hf : ∀ a b, R a b → Q (f a) (g b)) :
    Agrees L Q (x.map f) (y.map g) := by
  cases h with
  | ok h => exact .ok (hf _ _ h)
  | error h => exact .error h

theorem Alike.pure {a b : α} (h : R a b) : Alike L S R (pure a) (pure b) := fun _ _ hs => ⟨.ok h, hs⟩

theorem Alike.throw {e e' : Error} (h : e.Agrees L e') : Alike L S R (throw e) (throw e') :=
  fun _ _ hs => ⟨.error h, hs⟩

/-- Sequences are alike if their parts are. -/
theorem Alike.bind {x y : ExceptT Error (StateM τ) α} {f g : α → ExceptT Error (StateM τ) β} (h : Alike L S R x y)
    (hf : ∀ a b, R a b → Alike L S Q (f a) (g b)) : Alike L S Q (x >>= f) (y >>= g) := by
  intro s t hs
  obtain ⟨hr, hs'⟩ := h s t hs
  rcases hx : x.run.run s with ⟨r, s'⟩
  rcases hy : y.run.run t with ⟨r', t'⟩
  rw [hx, hy] at hr hs'
  cases hr with
  | ok hab =>
    rw [run_bind_of_ok hx, run_bind_of_ok hy]
    exact hf _ _ hab _ _ hs'
  | error he =>
    rw [run_bind_of_error hx, run_bind_of_error hy]
    exact ⟨.error he, hs'⟩

/-- What follows goes on from the same result. -/
theorem Alike.bind_eq {x y : ExceptT Error (StateM τ) α} {f g : α → ExceptT Error (StateM τ) β} (h : Alike L S Eq x y)
    (hf : ∀ a, Alike L S Q (f a) (g a)) : Alike L S Q (x >>= f) (y >>= g) := by
  refine h.bind fun a b hab => ?_
  subst hab
  exact hf a

theorem Alike.mapM {P : γ → γ → Prop} {f g : γ → ExceptT Error (StateM τ) α} {as bs : List γ}
    (h : List.Forall₂ P as bs) (hf : ∀ a b, P a b → Alike L S R (f a) (g b)) :
    Alike L S (List.Forall₂ R) (as.mapM f) (bs.mapM g) := by
  induction h with
  | nil =>
    rw [List.mapM_nil, List.mapM_nil]
    exact .pure .nil
  | cons hab _ ih =>
    rw [List.mapM_cons, List.mapM_cons]
    exact (hf _ _ hab).bind fun _ _ hr => ih.bind fun _ _ hrs => .pure (.cons hr hrs)

/-- A run over one and the same list. -/
theorem Alike.mapM_same {f g : γ → ExceptT Error (StateM τ) α} (as : List γ) (hf : ∀ a, Alike L S R (f a) (g a)) :
    Alike L S (List.Forall₂ R) (as.mapM f) (as.mapM g) := by
  have hsame : List.Forall₂ Eq as as := List.forall₂_refl as
  refine Alike.mapM hsame fun a b hab => ?_
  subst hab
  exact hf a

theorem Alike.foldlM {P : γ → γ → Prop} {f g : α → γ → ExceptT Error (StateM τ) α} {as bs : List γ} {a b : α}
    (h : List.Forall₂ P as bs) (hab : R a b) (hf : ∀ a b c d, R a b → P c d → Alike L S R (f a c) (g b d)) :
    Alike L S R (as.foldlM f a) (bs.foldlM g b) := by
  induction h generalizing a b with
  | nil => exact .pure hab
  | cons hcd _ ih =>
    rw [List.foldlM_cons, List.foldlM_cons]
    exact (hf _ _ _ _ hab hcd).bind fun _ _ hr => ih hr

theorem Alike.forM {P : γ → γ → Prop} {f g : γ → ExceptT Error (StateM τ) Unit} {as bs : List γ}
    (h : List.Forall₂ P as bs) (hf : ∀ a b, P a b → Alike L S Eq (f a) (g b)) :
    Alike L S Eq (as.forM f) (bs.forM g) := by
  induction h with
  | nil => exact .pure rfl
  | cons hab _ ih => exact (hf _ _ hab).bind fun _ _ _ => ih

end Alike

section Work

variable {κ σ α : Type} {L : Lines} {K : κ → κ → Prop} {R : α → α → Prop}

theorem Load.alike_ofExcept {x y : Except Error α} (h : Outcome.Agrees L R x y) :
    Alike L (Session.Agrees L : Session σ → Session σ → Prop) R (Load.ofExcept x) (Load.ofExcept y) :=
  fun _ _ hs => ⟨h, hs⟩

theorem Load.alike_warn {w w' : Warning} (h : w.Agrees L w') :
    Alike L (Session.Agrees L : Session σ → Session σ → Prop) Eq (Load.warn w) (Load.warn w') :=
  fun _ _ hs => ⟨.ok rfl, hs.state, List.rel_append hs.warnings (.cons h .nil)⟩

theorem Work.alike_own : Alike L (Work.States L K : κ × Session σ → κ × Session σ → Prop) K Work.own Work.own :=
  fun _ _ hs => ⟨.ok hs.1, hs⟩

theorem Work.alike_update {f g : κ → κ} (h : ∀ a b, K a b → K (f a) (g b)) :
    Alike L (Work.States L K : κ × Session σ → κ × Session σ → Prop) Eq (Work.update f) (Work.update g) :=
  fun _ _ hs => ⟨.ok rfl, h _ _ hs.1, hs.2⟩

theorem Alike.ofLoad {x y : Load σ α} (h : Alike L (Session.Agrees L) R x y) :
    Alike L (Work.States L K) R (Work.ofLoad x) (Work.ofLoad y) := by
  intro ⟨k, s⟩ ⟨k', s'⟩ hs
  obtain ⟨hr, ht⟩ := h s s' hs.2
  rcases hx : x.run.run s with ⟨r, t⟩
  rcases hy : y.run.run s' with ⟨r', t'⟩
  rw [hx, hy] at hr ht
  rw [Work.run_ofLoad k hx, Work.run_ofLoad k' hy]
  exact ⟨hr, hs.1, ht⟩

theorem Alike.runFrom {x y : Work κ σ α} {k k' : κ} (h : Alike L (Work.States L K) R x y) (hk : K k k') :
    Alike L (Session.Agrees L) (fun a b => R a.1 b.1 ∧ K a.2 b.2) (x.runFrom k) (y.runFrom k') := by
  intro s s' hs
  obtain ⟨hr, ht⟩ := h (k, s) (k', s') ⟨hk, hs⟩
  rcases hx : x.run.run (k, s) with ⟨r, l, t⟩
  rcases hy : y.run.run (k', s') with ⟨r', l', t'⟩
  rw [hx, hy] at hr ht
  rw [Work.run_runFrom hx, Work.run_runFrom hy]
  exact ⟨hr.map fun _ _ h => ⟨h, ht.1⟩, ht.2⟩

end Work

/-! ## Lists of data that agrees -/

section List

variable {α β γ : Type} {R : α → β → Prop} {as : List α} {bs : List β}

theorem rel_find? {p : α → Bool} {q : β → Bool} (h : List.Forall₂ R as bs) (hpq : ∀ a b, R a b → p a = q b) :
    Option.Rel R (as.find? p) (bs.find? q) := by
  induction h with
  | nil => exact .none
  | @cons a b _ _ hab _ ih =>
    rw [List.find?_cons, List.find?_cons, hpq a b hab]
    cases q b with
    | true => exact .some hab
    | false => exact ih

theorem rel_getLast? (h : List.Forall₂ R as bs) : Option.Rel R as.getLast? bs.getLast? := by
  have hr := List.forall₂_reverse_iff.mpr h
  rw [← List.head?_reverse, ← List.head?_reverse]
  generalize as.reverse = cs, bs.reverse = ds at hr
  cases hr with
  | nil => exact .none
  | cons hab => exact .some hab

theorem map_eq_of_forall₂ {f : α → γ} {g : β → γ} (h : List.Forall₂ R as bs) (hfg : ∀ a b, R a b → f a = g b) :
    as.map f = bs.map g := by
  rw [← List.forall₂_eq_eq_eq, List.forall₂_map_left_iff, List.forall₂_map_right_iff]
  exact h.imp hfg

theorem rel_optionMap {γ' : Type} {Q : γ → γ' → Prop} {x : Option α} {y : Option β} {f : α → γ} {g : β → γ'}
    (h : Option.Rel R x y) (hfg : ∀ a b, R a b → Q (f a) (g b)) : Option.Rel Q (x.map f) (y.map g) := by
  cases h with
  | none => exact .none
  | some h => exact .some (hfg _ _ h)

theorem rel_toList {x : Option α} {y : Option β} (h : Option.Rel R x y) : List.Forall₂ R x.toList y.toList := by
  cases h with
  | none => exact .nil
  | some h => exact .cons h .nil

theorem isNone_eq_of_rel {x : Option α} {y : Option β} (h : Option.Rel R x y) : x.isNone = y.isNone := by
  cases h <;> rfl

theorem eq_of_forall₂ {R : γ → γ → Prop} {as bs : List γ} (h : List.Forall₂ R as bs) (hR : ∀ a b, R a b → a = b) :
    as = bs := by
  rw [← List.forall₂_eq_eq_eq]
  exact h.imp hR

end List

/-! ## Where lines have to be equal -/

section Same

theorem Position.Agrees.eq {p q : Position} (h : p.Agrees .same q) : p = q := by
  obtain ⟨origin, line⟩ := p
  obtain ⟨origin', line'⟩ := q
  cases h.origin
  cases h.line
  rfl

theorem Located.Agrees.eq {a b : Located} (h : a.Agrees .same b) : a = b := by
  obtain ⟨instruction, position⟩ := a
  obtain ⟨instruction', position'⟩ := b
  cases h.instruction
  cases h.position.eq
  rfl

theorem Token.Agrees.eq {a b : Token} (h : a.Agrees .same b) : a = b := Token.ext_content h.content h.line

theorem Error.Agrees.eq {e e' : Error} (h : e.Agrees .same e') : e = e' := by
  cases h with
  | unknownTemplate | unreadable | conversion => rfl
  | unterminated _ _ h => cases h; rfl
  | compilation _ h | superWithoutParent _ h | render _ h => cases h.eq; rfl

theorem Warning.Agrees.eq {w w' : Warning} (h : w.Agrees .same w') : w = w' := by
  cases h with
  | duplicateBlock | orphanBlock => rfl
  | repeatedExtends _ _ h => cases h.eq; rfl

theorem Warning.agrees_refl (L : Lines) (w : Warning) : w.Agrees L w := by
  cases w with
  | duplicateBlock => exact .duplicateBlock ..
  | repeatedExtends position previous next => exact .repeatedExtends previous next ⟨rfl, L.refl _⟩
  | orphanBlock => exact .orphanBlock ..

theorem Session.agrees_refl {σ : Type} (L : Lines) (s : Session σ) : s.Agrees L s :=
  ⟨rfl, List.forall₂_same.mpr fun w _ => Warning.agrees_refl L w⟩

theorem Session.Agrees.eq {σ : Type} {s t : Session σ} (h : s.Agrees .same t) : s = t := by
  obtain ⟨state, warnings⟩ := s
  obtain ⟨state', warnings'⟩ := t
  cases h.state
  cases eq_of_forall₂ h.warnings fun _ _ => Warning.Agrees.eq
  rfl

theorem Program.Agrees.eq {p q : Program} (h : p.Agrees .same q) : p = q := by
  obtain ⟨origin, instructions, code, ops, nested, linked⟩ := p
  obtain ⟨origin', instructions', code', ops', nested', linked'⟩ := q
  cases h.origin
  cases eq_of_forall₂ h.instructions fun _ _ => Located.Agrees.eq
  cases h.code
  cases linked
  cases linked'
  rfl

theorem Template.Agrees.eq {t u : Template} (h : t.Agrees .same u) : t = u := by
  obtain ⟨name, origin, tokens, parents, program⟩ := t
  obtain ⟨name', origin', tokens', parents', program'⟩ := u
  cases h.name
  cases h.origin
  cases eq_of_forall₂ h.tokens fun _ _ => Token.Agrees.eq
  cases h.parents
  cases h.program.eq
  rfl

theorem Outcome.Agrees.eq {α : Type} {R : α → α → Prop} {x y : Except Error α} (h : Agrees .same R x y)
    (hR : ∀ a b, R a b → a = b) : x = y := by
  cases h with
  | ok h => rw [hR _ _ h]
  | error h => rw [h.eq]

/-- Computations that are alike then are the same. -/
theorem Alike.eq {τ α : Type} {S : τ → τ → Prop} {R : α → α → Prop} {x y : ExceptT Error (StateM τ) α}
    (h : Alike .same S R x y) (hrefl : ∀ s, S s s) (hS : ∀ s t, S s t → s = t) (hR : ∀ a b, R a b → a = b) : x = y := by
  refine ExceptT.ext (funext fun s => ?_)
  obtain ⟨hr, hs⟩ := h s s (hrefl s)
  exact Prod.ext (hr.eq hR) (hS _ _ hs)

end Same

end Stencil
