import Stencil.Proofs.Bracketing
import Stencil.Proofs.Nesting
import Stencil.Program

/-!
# Which instructions link

Instructions link if all of them can be read and their control statements nest (`WellNested`). Otherwise one of them is
to blame: the first one that cannot be read or that divides or closes what is not there to be divided or closed, or else
the last one that opens a statement for which there is no `end` (`Blamed`). `link_eq_ok_iff_wellNested` says that
linking goes by this, and at whose position it fails.

Nested code is built by recursive descent. `nest` comes to the same with a stack of open statements, instruction by
instruction (`nest_eq_piece`). What the stack means is said by `Stands`: which start of the instructions lies in front
of each open statement, and that what stands in it since then is a part of a statement. Every instruction that is taken
up keeps this (`Stands.takeUp`), and at the end of the list, or where an instruction does not fit, it tells who is to
blame.
-/

namespace Stencil

open Script (Expr Statement)
open Mark (Nested Whole Interior)

/-! ## Well-nested instructions -/

/-- The code of the instruction can be read. -/
def Instruction.Parses : Instruction → Prop
  | .expression code _ => ∃ e, Expr.ofCode code = .ok e
  | .statement code => ∃ s, Statement.ofCode code = .ok s
  | .literal _ => True
  | .blankLines _ => True

/-- The mark of a control statement. -/
def Script.Statement.mark? : Statement → Option Mark
  | .ifThen _ => some (.opens .conditional)
  | .loop _ _ => some (.opens .loop)
  | .elseIf _ => some .elseIf
  | .otherwise => some .otherwise
  | .close => some .close
  | _ => none

/-- The mark of an instruction, if it is a control statement. -/
def Instruction.mark? : Instruction → Option Mark
  | .statement code => (Statement.ofCode code).toOption.bind Statement.mark?
  | _ => none

/-- The marks of the control statements among instructions. -/
def marks (ls : List Located) : List Mark := ls.filterMap fun l => l.instruction.mark?

/-- All instructions can be read, and their control statements nest. -/
def WellNested (ls : List Located) : Prop := (∀ l ∈ ls, l.instruction.Parses) ∧ Nested (marks ls)

/-- The instruction in the place cannot be read, or it divides or closes something although no well-nested instructions
go on with that. -/
def Offends (ls : List Located) (place : Nat) : Prop :=
  ∃ l, ls[place]? = some l ∧ (¬ l.instruction.Parses ∨ ∃ m, l.instruction.mark? = some m ∧ m.isOpening = false ∧
    ∀ rest, ¬ Nested (marks (ls.take place) ++ m :: rest))

/-- The instruction in the place opens a statement, and the instructions from there on never end it. -/
def LeftOpen (ls : List Located) (place : Nat) : Prop :=
  ∃ l o, ls[place]? = some l ∧ l.instruction.mark? = some (.opens o) ∧ ∀ n, ¬ Whole (marks ((ls.drop place).take n))

/-- The instruction in the place is the one to blame: the first that offends, or else the innermost that is left
open. -/
inductive Blamed (ls : List Located) (place : Nat) : Prop
  | offends : Offends ls place → (∀ p < place, ¬ Offends ls p) → Blamed ls place
  | leftOpen : (∀ p, ¬ Offends ls p) → LeftOpen ls place → (∀ p, place < p → ¬ LeftOpen ls p) → Blamed ls place

/-! ## Nesting with a stack -/

/-- The failure of an instruction. -/
def Located.fault (l : Located) (fault : CompileFault) : Error := .compilation l.position fault

/-- Reads the mark of an instruction. -/
def Located.readMark (l : Located) : Except Error (Option Mark) :=
  match l.instruction with
  | .literal _ => .ok none
  | .blankLines _ => .ok none
  | .expression code _ =>
    match Expr.ofCode code with
    | .ok _ => .ok none
    | .error e => .error (l.fault (.malformed e))
  | .statement code =>
    match Statement.ofCode code with
    | .ok s => .ok s.mark?
    | .error e => .error (l.fault (.malformed e))

/-- A statement that is open: what opened it, and where in it the next instruction is. -/
structure Opening where
  source : Located
  region : Region

/-- What a mark of an instruction makes of the open statements, the innermost first. -/
def Located.takeUp (l : Located) : Option Mark → List Opening → Except Error (List Opening)
  | none, stack => .ok stack
  | some (.opens o), stack => .ok (⟨l, .behind o⟩ :: stack)
  | some .elseIf, ⟨source, .branch⟩ :: stack => .ok (⟨source, .branch⟩ :: stack)
  | some .elseIf, _ => .error (l.fault .strayElseIf)
  | some .otherwise, ⟨source, .branch⟩ :: stack => .ok (⟨source, .alternative⟩ :: stack)
  | some .otherwise, ⟨_, .alternative⟩ :: _ => .error (l.fault .secondElse)
  | some .otherwise, _ => .error (l.fault .strayElse)
  | some .close, _ :: stack => .ok stack
  | some .close, [] => .error (l.fault .strayEnd)

/-- Takes up instructions one after the other. At the end nothing may be open. -/
def nest : List Opening → List Located → Except Error Unit
  | [], [] => .ok ()
  | o :: _, [] => .error (o.source.fault (.unclosed o.region.opener))
  | stack, l :: ls => do nest (← l.takeUp (← l.readMark) stack) ls

theorem nest_cons (stack : List Opening) (l : Located) (ls : List Located) :
    nest stack (l :: ls) = (do nest (← l.takeUp (← l.readMark) stack) ls) := by
  cases stack <;> rfl

/-! ## The stack and recursive descent -/

/-- The mark of what is read. -/
def Reading.mark? : Reading → Option Mark
  | .statement s => s.mark?
  | _ => none

theorem readMark_eq (p : Placed) : p.1.readMark = p.read.map Reading.mark? := by
  obtain ⟨⟨instruction, position⟩, place⟩ := p
  unfold Located.readMark Placed.read
  cases instruction with
  | literal | blankLines => rfl
  | expression code _ => rcases h : Expr.ofCode code with e | e <;> simp only [h] <;> rfl
  | statement code => rcases h : Statement.ofCode code with e | e <;> simp only [h] <;> rfl

namespace Code

/-- The mark of a divider. -/
def Divider.mark : Divider → Mark
  | close => .close
  | otherwise => .otherwise
  | elseIf _ => .elseIf

/-- How nesting goes on behind a piece. -/
def resume (stack : List Opening) : Option (Placed × Divider × List Placed) → Except Error Unit
  | none => nest stack []
  | some (source, d, rest) => do nest (← source.1.takeUp (some d.mark) stack) (rest.map Prod.fst)

/-- With a piece in front of it, the stack is where it was; behind the branches of a condition, the condition is
closed. -/
theorem nest_eq_piece :
    (∀ ls stack, nest stack (ls.map Prod.fst) = (do resume stack (← piece ls).stop)) ∧
      ∀ opener ls stack, nest (⟨opener.1, .branch⟩ :: stack) (ls.map Prod.fst) =
        (do nest stack ((← branches opener ls).rest.map Prod.fst)) := by
  apply piece.mutual_induct
  case case1 =>
    intro stack
    rw [piece]
    rfl
  case case2 =>
    intro l rest ihRest ihBranches ihBehind ihEnd stack
    have hnext (make : Code → Code) : nest stack (rest.map Prod.fst) =
        (do resume stack (← (do return (← piece rest).after make (Nat.le_succ rest.length))).stop) := by
      rw [ihRest]
      simp only [bind_assoc, pure_bind, Piece.stop_after]
    rw [piece, List.map_cons, nest_cons, readMark_eq]
    rcases hr : l.read with e | r
    · rfl
    rw [ok_bind]
    cases r with
    | blank => exact hnext id
    | literal text => exact hnext (literal l.2 text)
    | emit e escaped => exact hnext (emit l.2 e escaped)
    | statement s =>
      cases s with
      | empty => exact hnext id
      | assign name e => exact hnext (assign l.2 name e)
      | includes name extra => exact hnext (includes l.2 name extra)
      | eval e => exact hnext (eval l.2 e)
      -- a divider or an `end` is left to the stack
      | close | otherwise | elseIf => rfl
      | ifThen test =>
        have hopen : nest (⟨l.1, .branch⟩ :: stack) (rest.map Prod.fst) = _ := ihBranches stack
        refine hopen.trans ?_
        simp only [bind_assoc, pure_bind, Piece.stop_after]
        exact bind_congr fun b => ihBehind b stack
      | loop vars iterable =>
        have hopen : nest (⟨l.1, .loop⟩ :: stack) (rest.map Prod.fst) = _ := ihRest (⟨l.1, .loop⟩ :: stack)
        refine hopen.trans ?_
        rw [bind_assoc]
        refine bind_congr fun q => ?_
        cases q with
        | ended => rfl
        | divided body source d rest' hlt =>
          cases d with
          | otherwise | elseIf => rfl
          | close =>
            refine (ihEnd rest' hlt stack).trans ?_
            simp only [bind_assoc, pure_bind, Piece.stop_after]
  case case3 =>
    intro opener ls ihBody ihAlternative ihElseIf stack
    rw [ihBody, branches, bind_assoc]
    refine bind_congr fun q => ?_
    cases q with
    | ended => rfl
    | divided body divide d rest hlt =>
      cases d with
      | close => rfl
      | otherwise =>
        refine (ihAlternative rest hlt (⟨opener.1, .alternative⟩ :: stack)).trans ?_
        rw [bind_assoc]
        refine bind_congr fun q' => ?_
        cases q' with
        | ended => rfl
        | divided _ _ d' => cases d' <;> rfl
      | elseIf test =>
        refine (ihElseIf rest hlt stack).trans ?_
        simp only [bind_assoc, pure_bind]

/-- Instructions have a nested code exactly if they nest, and otherwise both fail alike. -/
theorem nest_eq_ofInstructions (ls : List Located) : nest [] ls = (ofInstructions ls).map fun _ => () := by
  have h := nest_eq_piece.1 ls.zipIdx []
  rw [List.zipIdx_map_fst] at h
  rw [h, ofInstructions]
  rcases piece ls.zipIdx with e | p
  · rfl
  · cases p with
    | ended => rfl
    | divided _ _ d => cases d <;> rfl

end Code

/-! ## What the stack means -/

section Stands

variable {ls front inside back : List Located} {l : Located} {stack stack' : List Opening} {m : Option Mark}

@[simp] theorem marks_append (a b : List Located) : marks (a ++ b) = marks a ++ marks b := List.filterMap_append

theorem marks_singleton (h : l.instruction.mark? = m) : marks [l] = m.toList := by
  subst h
  cases hm : l.instruction.mark? <;> simp [marks, hm]

theorem marks_cons {mark : Mark} (h : l.instruction.mark? = some mark) (ls : List Located) :
    marks (l :: ls) = mark :: marks ls :=
  List.filterMap_cons_some h

/-- The marks around that of an instruction. -/
theorem marks_eq_append {place : Nat} {mark : Mark} (hl : ls[place]? = some l) (hm : l.instruction.mark? = some mark) :
    marks ls = marks (ls.take place) ++ mark :: marks (ls.drop (place + 1)) := by
  obtain ⟨hlt, rfl⟩ := List.getElem?_eq_some_iff.mp hl
  rw [← marks_cons hm, ← marks_append, ← List.drop_eq_getElem_cons, List.take_append_drop]

/-- A control statement can be read. -/
theorem parses_of_mark? {mark : Mark} (h : l.instruction.mark? = some mark) : l.instruction.Parses := by
  cases hi : l.instruction with
  | statement code =>
    rw [hi, Instruction.mark?] at h
    rcases hs : Statement.ofCode code with e | s
    · rw [hs] at h
      cases h
    · exact ⟨s, hs⟩
  | literal | expression | blankLines =>
    rw [hi] at h
    cases h

/-- Reading the mark of an instruction succeeds exactly if its code can be read. -/
theorem readMark_ok (h : l.readMark = .ok m) : l.instruction.Parses ∧ l.instruction.mark? = m := by
  obtain ⟨instruction, position⟩ := l
  unfold Located.readMark at h
  cases instruction with
  | literal | blankLines =>
    cases h
    exact ⟨trivial, rfl⟩
  | expression code escaped =>
    rcases he : Expr.ofCode code with e | e <;> simp only [he] at h
    · cases h
    · cases h
      exact ⟨⟨e, he⟩, rfl⟩
  | statement code =>
    rcases hs : Statement.ofCode code with e | s <;> simp only [hs] at h
    · cases h
    · cases h
      refine ⟨⟨s, hs⟩, ?_⟩
      simp [Instruction.mark?, hs, Except.toOption]

theorem readMark_error {e : Error} (h : l.readMark = .error e) :
    ¬ l.instruction.Parses ∧ ∃ fault, e = l.fault fault := by
  obtain ⟨instruction, position⟩ := l
  unfold Located.readMark at h
  cases instruction with
  | literal | blankLines => cases h
  | expression code escaped =>
    rcases he : Expr.ofCode code with f | f <;> simp only [he] at h
    · cases h
      refine ⟨?_, _, rfl⟩
      rintro ⟨x, hx⟩
      rw [he] at hx
      cases hx
    · cases h
  | statement code =>
    rcases hs : Statement.ofCode code with f | s <;> simp only [hs] at h
    · cases h
      refine ⟨?_, _, rfl⟩
      rintro ⟨x, hx⟩
      rw [hs] at hx
      cases hx
    · cases h

/-- Behind the instructions, the statements on the stack are open: in front of the last opener there are those that have
been open before, and behind it there is part of the statement. -/
inductive Stands : List Located → List Opening → Prop
  | bottom {ls : List Located} : (∀ l ∈ ls, l.instruction.Parses) → Nested (marks ls) → Stands ls []
  | opened {front inside : List Located} {o : Opening} {stack : List Opening} : Stands front stack →
    o.source.instruction.mark? = some (.opens o.region.opener) → (∀ l ∈ inside, l.instruction.Parses) →
      Interior o.region (marks inside) → Stands (front ++ o.source :: inside) (o :: stack)

theorem Stands.parses (h : Stands ls stack) : ∀ l ∈ ls, l.instruction.Parses := by
  induction h with
  | bottom h => exact h
  | opened _ hm hi _ ih =>
    intro l hl
    rcases List.mem_append.mp hl with hl | hl
    · exact ih l hl
    · rcases List.mem_cons.mp hl with rfl | hl
      · exact parses_of_mark? hm
      · exact hi l hl

/-- Whole statements change nothing. -/
theorem Stands.append (h : Stands front stack) (hp : ∀ l ∈ ls, l.instruction.Parses) (hn : Nested (marks ls)) :
    Stands (front ++ ls) stack := by
  cases h with
  | bottom h hf =>
    refine .bottom ?_ ?_
    · intro l hl
      exact (List.mem_append.mp hl).elim (h l) (hp l)
    · rw [marks_append]
      exact .append hn hf
  | opened hs hm hi hpart =>
    rw [List.append_assoc, List.cons_append]
    refine .opened hs hm ?_ ?_
    · intro l hl
      exact (List.mem_append.mp hl).elim (hi l) (hp l)
    · rw [marks_append]
      exact hpart.append hn

/-- An instruction that is taken up keeps the meaning of the stack. -/
theorem Stands.takeUp (h : Stands front stack) (hr : l.readMark = .ok m) (ht : l.takeUp m stack = .ok stack') :
    Stands (front ++ [l]) stack' := by
  obtain ⟨hp, hm⟩ := readMark_ok hr
  have hall : ∀ l' ∈ [l], l'.instruction.Parses := fun l' hl' => List.mem_singleton.mp hl' ▸ hp
  have hmarks := marks_singleton hm
  unfold Located.takeUp at ht
  split at ht
  · cases ht
    exact h.append hall (hmarks ▸ .nil)
  · next o =>
    cases ht
    have hopener : l.instruction.mark? = some (.opens (Region.behind o).opener) := by
      rw [Region.opener_behind, hm]
    exact .opened (o := ⟨l, .behind o⟩) h hopener nofun (Mark.interior_behind o)
  · next source stack =>
    cases ht
    cases h with
    | opened hs ho hi hpart =>
      rw [List.append_assoc, List.cons_append]
      refine .opened hs ho (fun l' hl' => (List.mem_append.mp hl').elim (hi l') (hall l')) ?_
      rw [marks_append, hmarks]
      exact .elseIf hpart .nil
  · cases ht
  · next source stack =>
    cases ht
    cases h with
    | opened hs ho hi hpart =>
      rw [List.append_assoc, List.cons_append]
      refine .opened (o := ⟨source, .alternative⟩) hs ho
        (fun l' hl' => (List.mem_append.mp hl').elim (hi l') (hall l')) ?_
      rw [marks_append, hmarks]
      exact .otherwise hpart .nil
  · cases ht
  · cases ht
  · next o stack =>
    cases ht
    cases h with
    | opened hs ho hi hpart =>
      rw [List.append_assoc, List.cons_append]
      refine hs.append ?_ ?_
      · intro l' hl'
        rcases List.mem_cons.mp hl' with rfl | hl'
        · exact parses_of_mark? ho
        · exact (List.mem_append.mp hl').elim (hi l') (hall l')
      · rw [marks_cons ho, marks_append, hmarks]
        exact Mark.Whole.nested (.close hpart)
  · cases ht

theorem Stands.run_eq (h : Stands ls stack) : Mark.run (marks ls) [] = some (stack.map Opening.region) := by
  induction h with
  | bottom _ hn => exact hn.run_eq []
  | opened _ ho _ hpart ih =>
    rw [marks_append, marks_cons ho, Mark.run_append, ih]
    exact hpart.run_eq _

/-- What is open can be closed. -/
theorem Stands.exists_nested (h : Stands ls stack) {ms : List Mark} (hn : Nested ms) :
    ∃ rest, Nested (marks ls ++ ms ++ rest) := by
  induction h generalizing ms with
  | bottom _ hf =>
    refine ⟨[], ?_⟩
    rw [List.append_nil]
    exact .append hn hf
  | opened _ ho _ hpart ih =>
    obtain ⟨rest, h⟩ := ih (Mark.Whole.nested (.close (hpart.append hn)))
    refine ⟨.close :: rest, ?_⟩
    rw [marks_append, marks_cons ho]
    simpa using h

/-! ## Who is to blame -/

/-- What has been taken up does not offend. -/
theorem Stands.not_offends (h : Stands front stack) (back : List Located) {p : Nat} (hp : p < front.length) :
    ¬ Offends (front ++ back) p := by
  rintro ⟨l, hl, hoffends⟩
  rw [List.getElem?_append_left hp] at hl
  rw [List.take_append_of_le_length (Nat.le_of_lt hp)] at hoffends
  rcases hoffends with hread | ⟨mark, hm, -, hnever⟩
  · exact hread (h.parses l (List.mem_of_getElem? hl))
  · obtain ⟨rest, hrest⟩ := h.exists_nested .nil
    rw [marks_eq_append hl hm] at hrest
    refine hnever (marks (front.drop (p + 1)) ++ rest) ?_
    simpa using hrest

/-- An instruction that cannot be taken up offends. -/
theorem Stands.offends (h : Stands front stack) {mark : Mark} (hl : l.instruction.mark? = some mark)
    (ho : mark.isOpening = false) (hs : mark.step (stack.map Opening.region) = none) (back : List Located) :
    Offends (front ++ l :: back) front.length := by
  refine ⟨l, ?_, .inr ⟨mark, hl, ho, ?_⟩⟩
  · simp
  · rw [List.take_left]
    exact Mark.not_nested_of_step_eq_none h.run_eq hs

theorem takeUp_error {e : Error} (h : l.takeUp m stack = .error e) : ∃ mark fault,
    m = some mark ∧ mark.isOpening = false ∧ mark.step (stack.map Opening.region) = none ∧ e = l.fault fault := by
  unfold Located.takeUp at h
  split at h
  · cases h
  · cases h
  · cases h
  · next hne =>
    cases h
    refine ⟨.elseIf, .strayElseIf, rfl, rfl, ?_, rfl⟩
    rcases stack with _ | ⟨⟨source, region⟩, stack⟩
    · rfl
    · cases region with
      | loop | alternative => rfl
      | branch => exact absurd rfl (hne source stack)
  · cases h
  · cases h
    exact ⟨.otherwise, .secondElse, rfl, rfl, rfl, rfl⟩
  · next hne hne' =>
    cases h
    refine ⟨.otherwise, .strayElse, rfl, rfl, ?_, rfl⟩
    rcases stack with _ | ⟨⟨source, region⟩, stack⟩
    · rfl
    · cases region with
      | loop => rfl
      | branch => exact absurd rfl (hne source stack)
      | alternative => exact absurd rfl (hne' source stack)
  · cases h
  · cases h
    exact ⟨.close, .strayEnd, rfl, rfl, rfl, rfl⟩

theorem leftOpen_append_iff (front ls : List Located) (place : Nat) :
    LeftOpen (front ++ ls) (front.length + place) ↔ LeftOpen ls place := by
  have hget : (front ++ ls)[front.length + place]? = ls[place]? := by
    rw [List.getElem?_append_right (Nat.le_add_right ..), Nat.add_sub_cancel_left]
  have hdrop : (front ++ ls).drop (front.length + place) = ls.drop place := by
    rw [← List.drop_drop, List.drop_left]
  rw [LeftOpen, LeftOpen, hget, hdrop]

/-- Where every opener has its end, nothing is left open. -/
theorem not_leftOpen (h : Mark.Closing (marks ls)) (place : Nat) : ¬ LeftOpen ls place := by
  rintro ⟨l, opener, hl, hm, hnever⟩
  obtain ⟨c, d, hc, hw⟩ := h _ _ _ (marks_eq_append hl hm)
  obtain ⟨x, y, hxy, rfl, -⟩ := List.filterMap_eq_append_iff.mp hc
  refine hnever (x.length + 1) ?_
  have hdrop : ls.drop place = l :: (x ++ y) := by
    obtain ⟨hlt, rfl⟩ := List.getElem?_eq_some_iff.mp hl
    rw [List.drop_eq_getElem_cons hlt, hxy]
  rw [hdrop, List.take_succ_cons, List.take_left, marks_cons hm]
  exact hw

/-- What opened the innermost open statement is left open at the end, and nothing behind it is. -/
theorem leftOpen_of_interior {o : Opening} (ho : o.source.instruction.mark? = some (.opens o.region.opener))
    (hi : Interior o.region (marks inside)) (front : List Located) :
    LeftOpen (front ++ o.source :: inside) front.length ∧
      ∀ p, front.length < p → ¬ LeftOpen (front ++ o.source :: inside) p := by
  refine ⟨⟨o.source, _, by simp, ho, ?_⟩, ?_⟩
  · intro n hw
    rw [List.drop_left] at hw
    cases n with
    | zero => cases hw
    | succ n =>
      rw [List.take_succ_cons, marks_cons ho] at hw
      exact hi.not_whole ((List.take_prefix n inside).filterMap _) _ hw
  · intro p hp hleft
    have hplace : p = (front ++ [o.source]).length + (p - front.length - 1) := by
      rw [List.length_append, List.length_singleton]
      omega
    rw [hplace, List.append_cons, leftOpen_append_iff] at hleft
    exact not_leftOpen hi.closing _ hleft

/-- In well-nested instructions, none is to blame. -/
theorem WellNested.not_blamed (h : WellNested ls) (place : Nat) : ¬ Blamed ls place := by
  rintro (⟨⟨l, hl, hoffends⟩, -⟩ | ⟨-, hleft, -⟩)
  · rcases hoffends with hread | ⟨mark, hm, -, hnever⟩
    · exact hread (h.1 l (List.mem_of_getElem? hl))
    · exact hnever _ (marks_eq_append hl hm ▸ h.2)
  · exact not_leftOpen (Interior.loop h.2).closing place hleft

/-- **Nesting succeeds if everything is closed, and otherwise fails at the instruction to blame.** -/
theorem Stands.nest (h : Stands front stack) (ls : List Located) :
    (Stencil.nest stack ls = .ok () ∧ Stands (front ++ ls) []) ∨
      ∃ place l fault, Blamed (front ++ ls) place ∧ (front ++ ls)[place]? = some l ∧
        Stencil.nest stack ls = .error (l.fault fault) := by
  induction ls generalizing front stack with
  | nil =>
    rw [List.append_nil]
    cases h with
    | bottom hp hn => exact .inl ⟨rfl, .bottom hp hn⟩
    | @opened front inside o stack hs ho hi hpart =>
      obtain ⟨hopen, hlast⟩ := leftOpen_of_interior ho hpart front
      refine .inr ⟨front.length, o.source, _, .leftOpen ?_ hopen hlast, by simp, rfl⟩
      intro p hp
      by_cases hlt : p < (front ++ o.source :: inside).length
      · have hnot := (Stands.opened hs ho hi hpart).not_offends [] hlt
        rw [List.append_nil] at hnot
        exact hnot hp
      · obtain ⟨l, hl, -⟩ := hp
        rw [List.getElem?_eq_none (Nat.le_of_not_lt hlt)] at hl
        cases hl
  | cons l ls ih =>
    have hblamed {e : Error} (ho : Offends (front ++ l :: ls) front.length) (hfault : ∃ fault, e = l.fault fault)
        (hn : Stencil.nest stack (l :: ls) = .error e) : ∃ place l' fault, Blamed (front ++ l :: ls) place ∧
          (front ++ l :: ls)[place]? = some l' ∧ Stencil.nest stack (l :: ls) = .error (l'.fault fault) := by
      obtain ⟨fault, rfl⟩ := hfault
      exact ⟨front.length, l, fault, .offends ho fun p hp => h.not_offends (l :: ls) hp, by simp, hn⟩
    rcases hr : l.readMark with e | m
    · obtain ⟨hp, hfault⟩ := readMark_error hr
      refine .inr (hblamed ⟨l, by simp, .inl hp⟩ hfault ?_)
      rw [nest_cons, hr]
      rfl
    · rcases ht : l.takeUp m stack with e | stack'
      · obtain ⟨mark, fault, rfl, ho, hs, he⟩ := takeUp_error ht
        refine .inr (hblamed (h.offends (readMark_ok hr).2 ho hs ls) ⟨fault, he⟩ ?_)
        rw [nest_cons, hr, ok_bind, ht]
        rfl
      · have hstep := ih (h.takeUp hr ht)
        rw [nest_cons, hr, ok_bind, ht, ok_bind]
        rwa [List.append_assoc, List.singleton_append] at hstep

end Stands

/-- Linking succeeds and the instructions are well nested, or it fails at the position of one that is to blame. -/
theorem Program.link_cases (origin : String) (ls : List Located) :
    ((∃ p, Program.link origin ls = .ok p) ∧ WellNested ls) ∨
      ∃ place l fault, Blamed ls place ∧ ls[place]? = some l ∧
        Program.link origin ls = .error (.compilation l.position fault) := by
  have hnest := Code.nest_eq_ofInstructions ls
  have hbottom : Stands [] [] := .bottom nofun .nil
  rcases hbottom.nest ls with ⟨hok, hstands⟩ | ⟨place, l, fault, hb, hl, herror⟩
  · have hwell : WellNested ls := by
      cases hstands with
      | bottom hp hn => exact ⟨hp, hn⟩
    rw [hok] at hnest
    rcases hcode : Code.ofInstructions ls with e | code
    · rw [hcode] at hnest
      cases hnest
    · exact .inl ⟨⟨_, link_of_ofInstructions origin hcode⟩, hwell⟩
  · rw [herror] at hnest
    rcases hcode : Code.ofInstructions ls with e | code
    · rw [hcode] at hnest
      cases hnest
      exact .inr ⟨place, l, fault, hb, hl, link_of_ofInstructions_eq_error origin hcode⟩
    · rw [hcode] at hnest
      cases hnest

/-- **Instructions link exactly if they are well nested.** Otherwise linking fails with a compilation error, at the
position of the instruction that is to blame. -/
theorem link_eq_ok_iff_wellNested (origin : String) (ls : List Located) :
    ((∃ p, Program.link origin ls = .ok p) ↔ WellNested ls) ∧
      (WellNested ls ∨ ∃ place l fault, Blamed ls place ∧ ls[place]? = some l ∧
        Program.link origin ls = .error (.compilation l.position fault)) := by
  rcases Program.link_cases origin ls with ⟨hok, hwell⟩ | ⟨place, l, fault, hb, hl, herror⟩
  · exact ⟨⟨fun _ => hwell, fun _ => hok⟩, .inl hwell⟩
  · refine ⟨⟨?_, ?_⟩, .inr ⟨place, l, fault, hb, hl, herror⟩⟩
    · rintro ⟨p, hp⟩
      rw [herror] at hp
      cases hp
    · intro hwell
      exact absurd hb (hwell.not_blamed place)

end Stencil
