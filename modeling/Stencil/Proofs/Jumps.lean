import Mathlib.Data.List.Nodup
import Stencil.Proofs.Blame

/-!
# Where operations lead

The loops of a program are told by their operations alone: a start opens a loop, and an end closes the innermost one
that is open (`Program.openLoops`). This pairs the starts and the ends (`Program.loopPairs`), whatever the jumps of the
operations say.

`Op.Lands` says where the jump of an operation has to lead: over something in which all loops are closed, from a start
right behind the end that it is paired with, and from an end right behind the start. The operations of nested code do
so, and leave no loop open (`Program.closed_of_holds`). The pairs around a place are then the loops that are open there
(`Program.length_loopsAround`).
-/

namespace Stencil

open Script (Expr LoopVars)

/-- Where an operation in a place leads if it does not lead on. -/
def Op.target? (place : Nat) : Op → Option Nat
  | jumpUnless _ ahead | jump ahead | loopStart _ _ ahead => some (place + 1 + ahead)
  | loopNext back => some (place - back)
  | _ => none

/-- The operation starts or ends a loop. -/
def Op.turns : Op → Bool
  | loopStart .. | loopNext _ => true
  | _ => false

namespace Program

variable (p : Program)

/-- Where the operation in a place leads if it does not lead on. -/
def target? (place : Nat) : Option Nat := (p.ops[place]?).bind fun op => op.op.target? place

/-- The places of the starts of those loops that are open in front of a place, the innermost first. -/
def openLoops : Nat → List Nat
  | 0 => []
  | place + 1 =>
    match (p.ops[place]?).map LinkedOp.op with
    | some (.loopStart ..) => place :: openLoops place
    | some (.loopNext _) => (openLoops place).tail
    | _ => openLoops place

theorem openLoops_succ (place : Nat) :
    p.openLoops (place + 1) =
      match (p.ops[place]?).map LinkedOp.op with
      | some (.loopStart ..) => place :: p.openLoops place
      | some (.loopNext _) => (p.openLoops place).tail
      | _ => p.openLoops place := rfl

/-- The start and the end of the loop that ends in a place. -/
def loopEndingIn? (place : Nat) : Option (Nat × Nat) :=
  match (p.ops[place]?).map LinkedOp.op with
  | some (.loopNext _) => (p.openLoops place).head?.map fun start => (start, place)
  | _ => none

/-- The start and the end of each loop. -/
def loopPairs : List (Nat × Nat) := (List.range p.ops.size).filterMap p.loopEndingIn?

/-- The start and the end of each loop around a place. -/
def loopsAround (place : Nat) : List (Nat × Nat) :=
  p.loopPairs.filter fun loop => loop.1 < place && place ≤ loop.2

/-! ## Open loops -/

section Open

variable {p} {place start stop source : Nat} {op : LinkedOp} {vars : LoopVars} {iterable : Expr} {ahead back : Nat}

theorem openLoops_of_loopStart (h : p.ops[place]? = some ⟨.loopStart vars iterable ahead, source⟩) :
    p.openLoops (place + 1) = place :: p.openLoops place := by
  rw [openLoops_succ, h]
  rfl

theorem openLoops_of_loopNext (h : p.ops[place]? = some ⟨.loopNext back, source⟩) :
    p.openLoops (place + 1) = (p.openLoops place).tail := by
  rw [openLoops_succ, h]
  rfl

theorem openLoops_of_not_turns (h : p.ops[place]? = some op) (hop : op.op.turns = false) :
    p.openLoops (place + 1) = p.openLoops place := by
  rw [openLoops_succ, h, Option.map_some]
  split
  · next heq =>
    rw [Option.some.inj heq] at hop
    cases hop
  · next heq =>
    rw [Option.some.inj heq] at hop
    cases hop
  · rfl

theorem openLoops_cases (p : Program) (place : Nat) :
    (∃ vars iterable ahead source, p.ops[place]? = some ⟨.loopStart vars iterable ahead, source⟩ ∧
        p.openLoops (place + 1) = place :: p.openLoops place) ∨
      p.openLoops (place + 1) = (p.openLoops place).tail ∨ p.openLoops (place + 1) = p.openLoops place := by
  rcases h : p.ops[place]? with _ | ⟨op, source⟩
  · rw [openLoops_succ, h]
    exact .inr (.inr rfl)
  · cases op with
    | loopStart vars iterable ahead => exact .inl ⟨vars, iterable, ahead, source, rfl, openLoops_of_loopStart h⟩
    | loopNext back => exact .inr (.inl (openLoops_of_loopNext h))
    | literal | emit | assign | includes | eval | jumpUnless | jump =>
      exact .inr (.inr (openLoops_of_not_turns h rfl))

/-- A loop is open only behind its start. -/
theorem of_mem_openLoops (h : start ∈ p.openLoops place) :
    start < place ∧ ∃ vars iterable ahead source, p.ops[start]? = some ⟨.loopStart vars iterable ahead, source⟩ := by
  induction place with
  | zero => cases h
  | succ place ih =>
    rcases p.openLoops_cases place with ⟨vars, iterable, ahead, source, hop, heq⟩ | heq | heq
    · rw [heq] at h
      rcases List.mem_cons.mp h with rfl | h
      · exact ⟨Nat.lt_succ_self _, vars, iterable, ahead, source, hop⟩
      · exact ⟨Nat.lt_succ_of_lt (ih h).1, (ih h).2⟩
    · rw [heq] at h
      have hopen := ih (List.mem_of_mem_tail h)
      exact ⟨Nat.lt_succ_of_lt hopen.1, hopen.2⟩
    · rw [heq] at h
      exact ⟨Nat.lt_succ_of_lt (ih h).1, (ih h).2⟩

/-- A loop that is open has been open ever since its start. -/
theorem mem_openLoops_of_le (h : start ∈ p.openLoops stop) (hlt : start < place) (hle : place ≤ stop) :
    start ∈ p.openLoops place := by
  induction stop, hle using Nat.le_induction with
  | base => exact h
  | succ stop hle ih =>
    rcases p.openLoops_cases stop with ⟨-, -, -, -, -, heq⟩ | heq | heq
    · rw [heq] at h
      rcases List.mem_cons.mp h with rfl | h
      · exact absurd (Nat.lt_of_lt_of_le hlt hle) (Nat.lt_irrefl _)
      · exact ih h
    · rw [heq] at h
      exact ih (List.mem_of_mem_tail h)
    · rw [heq] at h
      exact ih h

theorem nodup_openLoops (p : Program) (place : Nat) : (p.openLoops place).Nodup := by
  induction place with
  | zero => exact List.nodup_nil
  | succ place ih =>
    rcases p.openLoops_cases place with ⟨-, -, -, -, -, heq⟩ | heq | heq
    · rw [heq]
      exact List.nodup_cons.mpr ⟨fun h => Nat.lt_irrefl _ (of_mem_openLoops h).1, ih⟩
    · rw [heq]
      exact ih.tail
    · rwa [heq]

end Open

end Program

/-! ## Jumps of nested code -/

/-- The operation in the place leads to where it has to. -/
def Op.Lands (p : Program) (place : Nat) : Op → Prop
  | jumpUnless _ ahead | jump ahead =>
    place + 1 + ahead ≤ p.ops.size ∧ p.openLoops (place + 1 + ahead) = p.openLoops (place + 1)
  | loopStart _ _ ahead => ∃ back source, ahead = back + 1 ∧ p.ops[place + ahead]? = some ⟨.loopNext back, source⟩ ∧
    p.openLoops (place + ahead) = place :: p.openLoops place
  | loopNext back => ∃ start vars iterable source, place = start + 1 + back ∧
    p.ops[start]? = some ⟨.loopStart vars iterable (back + 1), source⟩ ∧ p.openLoops place = start :: p.openLoops start
  | _ => True

namespace Program

/-- From one place to another, operations lead to where they have to, and what is opened is closed. -/
structure Closed (p : Program) (place stop : Nat) : Prop where
  loops : p.openLoops stop = p.openLoops place
  lands : ∀ i op, place ≤ i → i < stop → p.ops[i]? = some op → op.op.Lands p i

section Closed

variable {p : Program} {place middle stop source : Nat} {op : LinkedOp} {ops : List LinkedOp}

theorem Closed.refl (p : Program) (place : Nat) : p.Closed place place :=
  ⟨rfl, fun _ _ hle hlt => absurd (Nat.lt_of_le_of_lt hle hlt) (Nat.lt_irrefl _)⟩

theorem Closed.trans (h : p.Closed place middle) (h' : p.Closed middle stop) : p.Closed place stop where
  loops := h'.loops.trans h.loops
  lands i op hle hlt hop := by
    rcases Nat.lt_or_ge i middle with hm | hm
    · exact h.lands i op hle hm hop
    · exact h'.lands i op hm hlt hop

theorem closed_single (h : p.ops[place]? = some op) (hop : op.op.turns = false) (hlands : op.op.Lands p place) :
    p.Closed place (place + 1) where
  loops := openLoops_of_not_turns h hop
  lands i op' hle hlt hi := by
    obtain rfl := Nat.le_antisymm (Nat.le_of_lt_succ hlt) hle
    rw [h] at hi
    cases hi
    exact hlands

/-- A loop around something closed. -/
theorem Closed.loop {vars : LoopVars} {iterable : Expr} {back source' : Nat}
    (hstart : p.ops[place]? = some ⟨.loopStart vars iterable (back + 1), source⟩)
    (h : p.Closed (place + 1) (place + 1 + back)) (hend : p.ops[place + 1 + back]? = some ⟨.loopNext back, source'⟩) :
    p.Closed place (place + 1 + back + 1) := by
  have hopen : p.openLoops (place + 1 + back) = place :: p.openLoops place :=
    h.loops.trans (openLoops_of_loopStart hstart)
  refine ⟨?_, fun i op hle hlt hi => ?_⟩
  · rw [openLoops_of_loopNext hend, hopen, List.tail_cons]
  · rcases Nat.eq_or_lt_of_le hle with rfl | hbehind
    · rw [hstart] at hi
      cases hi
      have heq : place + (back + 1) = place + 1 + back := by omega
      exact ⟨back, source', rfl, by rwa [heq], by rwa [heq]⟩
    · rcases Nat.eq_or_lt_of_le (Nat.le_of_lt_succ hlt) with rfl | hinside
      · rw [hend] at hi
        cases hi
        exact ⟨place, vars, iterable, source, rfl, hstart, hopen⟩
      · exact h.lands i op hbehind hinside hi

theorem Closed.cons (h : p.Closed place (place + 1)) (h' : p.Closed (place + 1) (place + 1 + ops.length)) :
    p.Closed place (place + (op :: ops).length) := by
  rw [List.length_cons, Nat.add_comm ops.length, ← Nat.add_assoc]
  exact h.trans h'

theorem Closed.append {as bs : List LinkedOp} (h : p.Closed place (place + as.length))
    (h' : p.Closed (place + as.length) (place + as.length + bs.length)) :
    p.Closed place (place + (as ++ bs).length) := by
  rw [List.length_append, ← Nat.add_assoc]
  exact h.trans h'

/-- A jump over something closed leads to a place of the program. -/
theorem Holds.lands_over {body : List LinkedOp} (h : p.Holds place (op :: (body ++ ops)))
    (hover : p.Closed (place + 1) (place + 1 + body.length)) :
    place + 1 + body.length ≤ p.ops.size ∧ p.openLoops (place + 1 + body.length) = p.openLoops (place + 1) := by
  have hsize : p.ops.toList.length = p.ops.size := Array.length_toList
  have hlength := List.IsPrefix.length_le h
  rw [List.length_cons, List.length_append, List.length_drop, hsize] at hlength
  exact ⟨by omega, hover.loops⟩

/-- Nested code is closed, wherever it stands. -/
theorem closed_of_holds (c : Code) : ∀ {place : Nat}, p.Holds place c.ops → p.Closed place (place + c.ops.length) := by
  induction c with
  | done => exact fun _ => .refl p _
  | literal source text next ih => exact fun h => .cons (closed_single h.head rfl trivial) (ih h.tail)
  | emit source e escaped next ih => exact fun h => .cons (closed_single h.head rfl trivial) (ih h.tail)
  | assign source name e next ih => exact fun h => .cons (closed_single h.head rfl trivial) (ih h.tail)
  | includes source name extra next ih => exact fun h => .cons (closed_single h.head rfl trivial) (ih h.tail)
  | eval source e next ih => exact fun h => .cons (closed_single h.head rfl trivial) (ih h.tail)
  | ifThen source test body next ihBody ihNext =>
    intro place h
    have hbody := ihBody h.tail.left
    exact .cons (closed_single h.head rfl (h.lands_over hbody)) (hbody.append (ihNext h.tail.right))
  | ifElse source test body elsePlace alternative next ihBody ihAlternative ihNext =>
    intro place h
    have hbody := ihBody h.tail.left
    have hjump : p.Holds (place + 1 + body.ops.length) (_ :: (alternative.ops ++ next.ops)) := h.tail.right
    have halternative := ihAlternative hjump.tail.left
    have hover := closed_single hjump.head rfl (hjump.lands_over halternative)
    have htest := hbody.trans hover
    refine .cons (closed_single h.head rfl ⟨?_, ?_⟩) (hbody.append (.cons hover ?_))
    · have hle := (hjump.lands_over halternative).1
      omega
    · exact htest.loops
    · exact halternative.append (ihNext hjump.tail.right)
  | loop source vars iterable body endPlace next ihBody ihNext =>
    intro place h
    have hend : p.Holds (place + 1 + body.ops.length) (_ :: next.ops) := h.tail.right
    have hloop := Closed.loop h.head (ihBody h.tail.left) hend.head
    have hlength : place + 1 + body.ops.length + 1 + next.ops.length =
        place + (Code.loop source vars iterable body endPlace next).ops.length := by
      simp only [Code.ops, List.length_cons, List.length_append]
      omega
    rw [← hlength]
    exact hloop.trans (ihNext hend.tail)

end Closed

/-- The operations of a program are closed. -/
theorem closed (p : Program) : p.Closed 0 p.ops.size := by
  have h := closed_of_holds p.code p.holds_code
  rwa [Nat.zero_add, ← List.size_toArray, ← p.linked] at h

/-- Every operation of a program leads to where it has to. -/
theorem lands {p : Program} {place : Nat} {op : LinkedOp} (h : p.ops[place]? = some op) : op.op.Lands p place :=
  p.closed.lands place op (Nat.zero_le _) (Array.getElem?_eq_some_iff.mp h).1 h

/-! ## Loops -/

section Loops

variable {p : Program} {start stop place source target : Nat} {vars : LoopVars} {iterable : Expr} {ahead back : Nat}

theorem loopEndingIn?_eq_some_iff : p.loopEndingIn? place = some (start, stop) ↔ place = stop ∧
    ∃ back source, p.ops[stop]? = some ⟨.loopNext back, source⟩ ∧ (p.openLoops stop).head? = some start := by
  unfold loopEndingIn?
  constructor
  · intro h
    rcases hop : p.ops[place]? with _ | ⟨op, source⟩
    · rw [hop] at h
      cases h
    · rw [hop, Option.map_some] at h
      cases op with
      | loopNext back =>
        obtain ⟨start', hopen, heq⟩ := Option.map_eq_some_iff.mp h
        obtain ⟨rfl, rfl⟩ := Prod.mk.inj heq
        exact ⟨rfl, back, source, hop, hopen⟩
      | literal | emit | assign | includes | eval | jumpUnless | jump | loopStart => cases h
  · rintro ⟨rfl, back, source, hop, hopen⟩
    rw [hop, Option.map_some, hopen]
    rfl

theorem mem_loopPairs_iff : (start, stop) ∈ p.loopPairs ↔
    ∃ back source, p.ops[stop]? = some ⟨.loopNext back, source⟩ ∧ (p.openLoops stop).head? = some start := by
  rw [loopPairs, List.mem_filterMap]
  constructor
  · rintro ⟨place, -, h⟩
    exact (loopEndingIn?_eq_some_iff.mp h).2
  · rintro ⟨back, source, hop, hopen⟩
    have hlt : stop < p.ops.size := (Array.getElem?_eq_some_iff.mp hop).1
    exact ⟨stop, List.mem_range.mpr hlt, loopEndingIn?_eq_some_iff.mpr ⟨rfl, back, source, hop, hopen⟩⟩

/-- Every start of a loop is paired with an end. -/
theorem mem_loopPairs_of_loopStart (h : p.ops[start]? = some ⟨.loopStart vars iterable ahead, source⟩) :
    (start, start + ahead) ∈ p.loopPairs := by
  obtain ⟨back, source', -, hend, hopen⟩ := lands h
  exact mem_loopPairs_iff.mpr ⟨back, source', hend, by rw [hopen, List.head?_cons]⟩

/-- Every end of a loop is paired with a start. -/
theorem exists_mem_loopPairs_of_loopNext (h : p.ops[stop]? = some ⟨.loopNext back, source⟩) :
    ∃ start, (start, stop) ∈ p.loopPairs := by
  obtain ⟨start, -, -, -, -, -, hopen⟩ := lands h
  exact ⟨start, mem_loopPairs_iff.mpr ⟨back, source, h, by rw [hopen, List.head?_cons]⟩⟩

/-- The start of a loop leads behind its end, and the end behind the start. -/
theorem of_mem_loopPairs (h : (start, stop) ∈ p.loopPairs) : ∃ vars iterable back source source',
    p.ops[start]? = some ⟨.loopStart vars iterable (back + 1), source⟩ ∧
      p.ops[stop]? = some ⟨.loopNext back, source'⟩ ∧ stop = start + 1 + back := by
  obtain ⟨back, source', hend, hhead⟩ := mem_loopPairs_iff.mp h
  obtain ⟨start', vars, iterable, source, hstop, hstart, hopen⟩ := lands hend
  rw [hopen, List.head?_cons] at hhead
  cases hhead
  exact ⟨vars, iterable, back, source, source', hstart, hend, hstop⟩

theorem stop_unique {stop' : Nat} (h : (start, stop) ∈ p.loopPairs) (h' : (start, stop') ∈ p.loopPairs) :
    stop = stop' := by
  obtain ⟨vars, iterable, back, source, -, hstart, -, rfl⟩ := of_mem_loopPairs h
  obtain ⟨vars', iterable', back', source', -, hstart', -, rfl⟩ := of_mem_loopPairs h'
  rw [hstart] at hstart'
  cases hstart'
  rfl

theorem nodup_loopPairs (p : Program) : p.loopPairs.Nodup := by
  refine List.Nodup.filterMap (fun place place' loop h h' => ?_) List.nodup_range
  obtain ⟨start, stop⟩ := loop
  exact (loopEndingIn?_eq_some_iff.mp h).1.trans (loopEndingIn?_eq_some_iff.mp h').1.symm

/-- The loops that are open in a place are those around it. -/
theorem mem_openLoops_iff : start ∈ p.openLoops place ↔ ∃ stop, (start, stop) ∈ p.loopsAround place := by
  simp only [loopsAround, List.mem_filter, Bool.and_eq_true, decide_eq_true_eq]
  constructor
  · intro h
    obtain ⟨hlt, vars, iterable, ahead, source, hstart⟩ := of_mem_openLoops h
    refine ⟨start + ahead, mem_loopPairs_of_loopStart hstart, hlt, Nat.le_of_not_lt fun hbehind => ?_⟩
    -- behind its end, the loop is not open again
    obtain ⟨back, source', -, hend, hopen⟩ := lands hstart
    have hclosed : p.openLoops (start + ahead + 1) = p.openLoops start := by
      rw [openLoops_of_loopNext hend, hopen, List.tail_cons]
    have hstill := mem_openLoops_of_le h (Nat.lt_succ_of_le (Nat.le_add_right start ahead)) hbehind
    rw [hclosed] at hstill
    exact Nat.lt_irrefl _ (of_mem_openLoops hstill).1
  · rintro ⟨stop, hpair, hlt, hle⟩
    obtain ⟨-, -, -, hhead⟩ := mem_loopPairs_iff.mp hpair
    exact mem_openLoops_of_le (List.mem_of_head? hhead) hlt hle

/-- As many loops are open in a place as there are around it. -/
theorem length_loopsAround (p : Program) (place : Nat) :
    (p.loopsAround place).length = (p.openLoops place).length := by
  have hnodup : ((p.loopsAround place).map Prod.fst).Nodup := by
    refine List.Nodup.map_on (fun loop h loop' h' heq => ?_) ((nodup_loopPairs p).filter _)
    obtain ⟨start, stop⟩ := loop
    obtain ⟨start', stop'⟩ := loop'
    cases heq
    rw [stop_unique (List.mem_of_mem_filter h) (List.mem_of_mem_filter h')]
  have hperm : ((p.loopsAround place).map Prod.fst).Perm (p.openLoops place) := by
    refine (List.perm_ext_iff_of_nodup hnodup (nodup_openLoops p place)).mpr fun start => ?_
    rw [mem_openLoops_iff, List.mem_map]
    exact ⟨fun ⟨⟨_, stop⟩, h, heq⟩ => ⟨stop, heq ▸ h⟩, fun ⟨stop, h⟩ => ⟨(start, stop), h, rfl⟩⟩
  rw [← hperm.length_eq, List.length_map]

/-- No operation leads out of the program. -/
theorem target?_le (h : p.target? place = some target) : target ≤ p.ops.size := by
  obtain ⟨⟨op, source⟩, hop, htarget⟩ := Option.bind_eq_some_iff.mp h
  have hlands := lands hop
  have hlt := (Array.getElem?_eq_some_iff.mp hop).1
  cases op with
  | jumpUnless test ahead =>
    cases htarget
    exact hlands.1
  | jump ahead =>
    cases htarget
    exact hlands.1
  | loopStart vars iterable ahead =>
    cases htarget
    obtain ⟨back, source', -, hend, -⟩ := hlands
    have hend := (Array.getElem?_eq_some_iff.mp hend).1
    omega
  | loopNext back =>
    cases htarget
    exact Nat.le_trans (Nat.sub_le ..) (Nat.le_of_lt hlt)
  | literal | emit | assign | includes | eval => cases htarget

end Loops

/-- The operations come from the instructions in the order of these, no jump leads out of the program, and starts and
ends of loops are paired so that each leads right behind the other one. -/
structure WellLinked (p : Program) : Prop where
  sources : ∀ op ∈ p.ops, op.place < p.instructions.length
  ordered : (p.ops.toList.map LinkedOp.place).Pairwise (· ≤ ·)
  targets : ∀ place target, p.target? place = some target → target ≤ p.ops.size
  starts : ∀ start vars iterable ahead source, p.ops[start]? = some ⟨.loopStart vars iterable ahead, source⟩ →
    ∃ stop, (start, stop) ∈ p.loopPairs
  ends : ∀ stop back source, p.ops[stop]? = some ⟨.loopNext back, source⟩ → ∃ start, (start, stop) ∈ p.loopPairs
  paired : ∀ start stop, (start, stop) ∈ p.loopPairs →
    start < stop ∧ p.target? start = some (stop + 1) ∧ p.target? stop = some (start + 1)

theorem wellLinked (p : Program) : p.WellLinked where
  sources op hop := by
    obtain ⟨l, hl, -⟩ := exists_comesFrom hop
    exact (List.getElem?_eq_some_iff.mp hl).1
  ordered := p.pairwise_places
  targets _ _ h := target?_le h
  starts _ _ _ _ _ h := ⟨_, mem_loopPairs_of_loopStart h⟩
  ends _ _ _ h := exists_mem_loopPairs_of_loopNext h
  paired start stop h := by
    obtain ⟨vars, iterable, back, source, source', hstart, hend, rfl⟩ := of_mem_loopPairs h
    have hback : start + 1 + back - back = start + 1 := Nat.add_sub_cancel ..
    refine ⟨by omega, ?_, ?_⟩
    · rw [target?, hstart]
      rfl
    · rw [target?, hend, Option.bind_some, Op.target?, hback]

end Program

end Stencil
