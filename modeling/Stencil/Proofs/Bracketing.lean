import Stencil.Code

/-!
# Control statements as brackets

Seen from afar, the control statements of a template are brackets: `if` and `for` open something, `elsif` and `else`
divide it, `end` closes it. `Mark` is what is left of a control statement then, and `Nested` is the grammar of the words
in which everything is in its place. `Whole` is a single statement from its opener to its `end`, and `Interior` is what
may stand behind an opener, up to a place where the statement could end.

A word of the grammar leaves a stack as it finds it, whatever is open around it (`Nested.run_eq`). Two further facts
follow by one induction (`of_nested`): no start of a word closes more than it opens (`Interior.balanced`), and every
opener in a word has its own `end` (`Interior.closing`).
-/

namespace Stencil

open Script (Expr Statement)

/-- What a control statement does to the nesting. -/
inductive Mark
  | opens (o : Opener)
  | elseIf
  | otherwise
  | close
  deriving DecidableEq, Repr

namespace Mark

/-- The mark opens a statement. -/
def isOpening : Mark → Bool
  | opens _ => true
  | _ => false

end Mark

/-- Where a place is inside an open statement: in a loop, in a condition that may still be divided, or behind the `else`
of a condition. -/
inductive Region
  | loop
  | branch
  | alternative
  deriving DecidableEq, Repr

namespace Region

/-- What opened the statement. -/
def opener : Region → Opener
  | loop => .loop
  | branch => .conditional
  | alternative => .conditional

/-- The region behind an opener. -/
def behind : Opener → Region
  | .loop => loop
  | .conditional => branch

@[simp] theorem opener_behind (o : Opener) : (behind o).opener = o := by cases o <;> rfl

end Region

/-! ## The grammar -/

namespace Mark

mutual

/-- Statements one after the other, each of them closed. -/
inductive Nested : List Mark → Prop
  | nil : Nested []
  | statement {r : Region} {inside ms : List Mark} :
    Interior r inside → Nested ms → Nested (.opens r.opener :: (inside ++ .close :: ms))

/-- What stands in a statement behind its opener, up to a place in the given region: a condition may be divided by any
number of `elsif`, and behind these by one `else`. -/
inductive Interior : Region → List Mark → Prop
  | loop {body : List Mark} : Nested body → Interior .loop body
  | branch {body : List Mark} : Nested body → Interior .branch body
  | elseIf {front body : List Mark} : Interior .branch front → Nested body → Interior .branch (front ++ .elseIf :: body)
  | otherwise {front body : List Mark} :
    Interior .branch front → Nested body → Interior .alternative (front ++ .otherwise :: body)

end

/-- A single statement, from its opener to its `end`. -/
inductive Whole : List Mark → Prop
  | close {r : Region} {inside : List Mark} : Interior r inside → Whole (.opens r.opener :: (inside ++ [.close]))

section Grammar

variable {r : Region} {a b ms inside : List Mark}

theorem Nested.append (hb : Nested b) : ∀ {a : List Mark}, Nested a → Nested (a ++ b)
  | _, .nil => hb
  | _, .statement hp hn => by
    have h := Nested.statement hp (Nested.append hb hn)
    simpa using h

theorem Whole.nested (h : Whole a) : Nested a := by
  obtain ⟨hp⟩ := h
  exact .statement hp .nil

theorem Interior.append (ha : Interior r a) (hb : Nested b) : Interior r (a ++ b) := by
  cases ha with
  | loop h => exact .loop (.append hb h)
  | branch h => exact .branch (.append hb h)
  | elseIf hp h =>
    rw [List.append_assoc, List.cons_append]
    exact .elseIf hp (.append hb h)
  | otherwise hp h =>
    rw [List.append_assoc, List.cons_append]
    exact .otherwise hp (.append hb h)

/-- The region behind an opener is entered. -/
theorem interior_behind (o : Opener) : Interior (.behind o) [] := by
  cases o with
  | conditional => exact .branch .nil
  | loop => exact .loop .nil

/-! ## What holds of all words -/

mutual

/-- What holds of the empty word and of both dividers, and is kept by appending and by closing a statement, holds of all
words. -/
theorem of_nested {P : List Mark → Prop} (nil : P []) (append : ∀ a b, P a → P b → P (a ++ b)) (elseIf : P [.elseIf])
    (otherwise : P [.otherwise])
    (whole : ∀ r inside, Interior r inside → P inside → P (.opens r.opener :: (inside ++ [.close]))) :
    ∀ {ms : List Mark}, Nested ms → P ms
  | _, .nil => nil
  | _, @Nested.statement r inside ms hp hn => by
    have hwhole := whole r inside hp (of_interior nil append elseIf otherwise whole hp)
    have hrest := of_nested nil append elseIf otherwise whole hn
    have h := append _ _ hwhole hrest
    simpa using h

theorem of_interior {P : List Mark → Prop} (nil : P []) (append : ∀ a b, P a → P b → P (a ++ b)) (elseIf : P [.elseIf])
    (otherwise : P [.otherwise])
    (whole : ∀ r inside, Interior r inside → P inside → P (.opens r.opener :: (inside ++ [.close]))) :
    ∀ {r : Region} {ms : List Mark}, Interior r ms → P ms
  | _, _, .loop h => of_nested nil append elseIf otherwise whole h
  | _, _, .branch h => of_nested nil append elseIf otherwise whole h
  | _, _, .elseIf hp h =>
    append _ _ (of_interior nil append elseIf otherwise whole hp)
      (append [_] _ elseIf (of_nested nil append elseIf otherwise whole h))
  | _, _, .otherwise hp h =>
    append _ _ (of_interior nil append elseIf otherwise whole hp)
      (append [_] _ otherwise (of_nested nil append elseIf otherwise whole h))

end

/-! ## Counting -/

/-- The word opens as much as it closes, and no start of it closes more than it opens. -/
structure Balanced (ms : List Mark) : Prop where
  closed : ms.count .close = ms.countP isOpening
  start_le : ∀ p, p <+: ms → p.count .close ≤ p.countP isOpening

theorem Balanced.append (ha : Balanced a) (hb : Balanced b) : Balanced (a ++ b) := by
  refine ⟨?_, ?_⟩
  · rw [List.count_append, List.countP_append, ha.closed, hb.closed]
  · intro p hp
    by_cases hlen : p.length ≤ a.length
    · exact ha.start_le p (List.prefix_of_prefix_length_le hp (List.prefix_append a b) hlen)
    · have hap : a <+: p := List.prefix_of_prefix_length_le (List.prefix_append a b) hp (by omega)
      obtain ⟨q, rfl⟩ := hap
      have hq := hb.start_le q ((List.prefix_append_right_inj a).mp hp)
      have hclosed := ha.closed
      rw [List.count_append, List.countP_append]
      omega

theorem Balanced.divider {m : Mark} (hc : m ≠ .close) (ho : m.isOpening = false) : Balanced [m] := by
  have hcount : [m].count .close = 0 := by simp [hc]
  refine ⟨?_, ?_⟩
  · rw [hcount]
    simp [ho]
  · intro p hp
    have hle : p.count .close ≤ [m].count .close := hp.sublist.count_le _
    omega

theorem Balanced.whole (h : Balanced inside) (o : Opener) : Balanced (.opens o :: (inside ++ [.close])) := by
  have hopens (p : List Mark) : (opens o :: p).countP isOpening = p.countP isOpening + 1 := by
    simp [List.countP_cons, isOpening]
  have hcloses (p : List Mark) : (opens o :: p).count .close = p.count .close := by
    simp
  refine ⟨?_, ?_⟩
  · rw [hopens, hcloses, List.count_append, List.countP_append, h.closed]
    simp [isOpening]
  · intro p hp
    cases p with
    | nil => simp
    | cons m q =>
      obtain ⟨rfl, hq⟩ := List.cons_prefix_cons.mp hp
      rw [hopens, hcloses]
      rcases List.prefix_concat_iff.mp hq with rfl | hq
      · rw [List.count_append, List.countP_append, h.closed]
        simp [isOpening]
      · have := h.start_le q hq
        omega

theorem Interior.balanced (h : Interior r ms) : Balanced ms :=
  of_interior ⟨rfl, fun p hp => by simp [List.prefix_nil.mp hp]⟩ (fun _ _ => Balanced.append)
    (.divider (by decide) rfl) (.divider (by decide) rfl) (fun r _ _ h => h.whole r.opener) h

/-- Nothing that stands behind an opener closes it. -/
theorem Interior.not_whole (h : Interior r inside) {p : List Mark} (hp : p <+: inside) (o : Opener) :
    ¬ Whole (.opens o :: p) := by
  intro hw
  have hle := h.balanced.start_le p hp
  have hcount : (opens o :: p).count .close = (opens o :: p).countP isOpening := by
    obtain ⟨hpart⟩ := hw
    exact (hpart.balanced.whole _).closed
  simp only [List.count_cons, List.countP_cons, isOpening, reduceCtorEq, beq_iff_eq, ↓reduceIte] at hcount
  omega

/-! ## Every opener has its end -/

/-- Every opener in the word begins a statement that ends in the word. -/
def Closing (ms : List Mark) : Prop :=
  ∀ a o b, ms = a ++ .opens o :: b → ∃ c d, b = c ++ d ∧ Whole (.opens o :: c)

theorem Closing.append (ha : Closing a) (hb : Closing b) : Closing (a ++ b) := by
  intro x o y h
  rcases List.append_eq_append_iff.mp h with ⟨z, -, hz⟩ | ⟨z, rfl, hz⟩
  · exact hb z o y hz
  · cases z with
    | nil => exact hb [] o y hz.symm
    | cons m z =>
      obtain ⟨rfl, rfl⟩ := List.cons.inj hz
      obtain ⟨c, d, rfl, hw⟩ := ha x o z rfl
      exact ⟨c, d ++ b, List.append_assoc c d b, hw⟩

theorem Closing.divider {m : Mark} (hm : m.isOpening = false) : Closing [m] := by
  intro a o b h
  have hmem : opens o ∈ [m] := by
    rw [h]
    exact List.mem_append_right _ List.mem_cons_self
  rw [← List.mem_singleton.mp hmem] at hm
  cases hm

theorem Closing.whole (hp : Interior r inside) (h : Closing inside) :
    Closing (.opens r.opener :: (inside ++ [.close])) := by
  intro a o b heq
  cases a with
  | nil =>
    obtain ⟨hm, rfl⟩ := List.cons.inj heq
    exact ⟨inside ++ [.close], [], (List.append_nil _).symm, hm ▸ .close hp⟩
  | cons m a =>
    obtain ⟨-, heq⟩ := List.cons.inj heq
    exact (h.append (Closing.divider rfl)) a o b heq

theorem Interior.closing (h : Interior r ms) : Closing ms :=
  of_interior (fun a o b h => absurd h (by simp)) (fun _ _ => Closing.append) (.divider rfl) (.divider rfl)
    (fun _ _ hp h => Closing.whole hp h) h

end Grammar

/-! ## A stack of regions -/

/-- What a mark makes of the regions that are open, the innermost first. -/
def step : Mark → List Region → Option (List Region)
  | .opens o, stack => some (.behind o :: stack)
  | .elseIf, .branch :: stack => some (.branch :: stack)
  | .otherwise, .branch :: stack => some (.alternative :: stack)
  | .close, _ :: stack => some stack
  | _, _ => none

/-- What marks make of the regions that are open. -/
def run : List Mark → List Region → Option (List Region)
  | [], stack => some stack
  | m :: ms, stack => (m.step stack).bind (run ms)

theorem run_append (a b : List Mark) (stack : List Region) : run (a ++ b) stack = (run a stack).bind (run b) := by
  induction a generalizing stack with
  | nil => rfl
  | cons m a ih =>
    rw [List.cons_append, run, run]
    cases m.step stack with
    | none => rfl
    | some stack' => exact ih stack'

mutual

/-- A word of the grammar leaves the stack as it is. -/
theorem Nested.run_eq : ∀ {ms : List Mark}, Nested ms → ∀ stack, run ms stack = some stack
  | _, .nil, _ => rfl
  | _, @Nested.statement r inside ms hp hn, stack => by
    have hopen : run (.opens r.opener :: inside) stack = some (r :: stack) := hp.run_eq stack
    rw [← List.cons_append, run_append, hopen]
    show run (.close :: ms) (r :: stack) = some stack
    exact hn.run_eq stack

/-- Behind an opener and a part of its statement, the region of the part is open. -/
theorem Interior.run_eq : ∀ {r : Region} {ms : List Mark}, Interior r ms →
    ∀ stack, run (.opens r.opener :: ms) stack = some (r :: stack)
  | _, _, .loop h, stack => h.run_eq (.loop :: stack)
  | _, _, .branch h, stack => h.run_eq (.branch :: stack)
  | _, _, @Interior.elseIf front body hp h, stack => by
    have hfront : run (.opens .conditional :: front) stack = some (.branch :: stack) := hp.run_eq stack
    show run ((.opens .conditional :: front) ++ .elseIf :: body) stack = _
    rw [run_append, hfront]
    exact h.run_eq (.branch :: stack)
  | _, _, @Interior.otherwise front body hp h, stack => by
    have hfront : run (.opens .conditional :: front) stack = some (.branch :: stack) := hp.run_eq stack
    show run ((.opens .conditional :: front) ++ .otherwise :: body) stack = _
    rw [run_append, hfront]
    exact h.run_eq (.alternative :: stack)

end

/-- Where the stack does not allow a mark, no word goes on with it. -/
theorem not_nested_of_step_eq_none {front : List Mark} {stack : List Region} (h : run front [] = some stack) {m : Mark}
    (hm : m.step stack = none) (rest : List Mark) : ¬ Nested (front ++ m :: rest) := by
  intro hn
  have hrun := hn.run_eq []
  rw [run_append, h, Option.bind_some, run, hm] at hrun
  cases hrun

end Mark

end Stencil
