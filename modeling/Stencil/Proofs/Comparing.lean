import Stencil.Proofs.Doubles
import Stencil.Script.Eval

/-!
# Comparisons of integers

Whether two integers of the signed 64-bit range are equal is decided exactly, and their order is that of the doubles
nearest to them (`order?_int`). The order is exact as well unless two different integers have the same nearest double:
then neither is less than the other one, though they are not equal (`compare_integers`). The first such pair is 2⁵³ and
its successor (`not_all_comparisons_exact`).
-/

namespace Stencil.Script

open Number

/-- What a comparison says of two integers. -/
def Comparison.Holds : Comparison → Int → Int → Prop
  | eq, a, b => a = b
  | ne, a, b => a ≠ b
  | lt, a, b => a < b
  | le, a, b => a ≤ b
  | gt, a, b => b < a
  | ge, a, b => b ≤ a

instance : ∀ (op : Comparison) (a b : Int), Decidable (op.Holds a b)
  | .eq, a, b => inferInstanceAs (Decidable (a = b))
  | .ne, a, b => inferInstanceAs (Decidable (a ≠ b))
  | .lt, a, b => inferInstanceAs (Decidable (a < b))
  | .le, a, b => inferInstanceAs (Decidable (a ≤ b))
  | .gt, a, b => inferInstanceAs (Decidable (b < a))
  | .ge, a, b => inferInstanceAs (Decidable (b ≤ a))

theorem natAbs_lt_of_inInt64 {n : Int} (h : InInt64 n) : n.natAbs < 2 ^ 64 := by
  obtain ⟨hlow, hhigh⟩ := h
  omega

/-- The doubles of two integers are ordered as the integers that they are. -/
theorem compareDoubles_ofInt {a b : Int} (ha : InInt64 a) (hb : InInt64 b) :
    compareDoubles (Float.ofInt a) (Float.ofInt b) = compare (rounded a) (rounded b) := by
  have hcompare := (denotes_ofInt (natAbs_lt_of_inInt64 ha)).compare_eq (denotes_ofInt (natAbs_lt_of_inInt64 hb))
  have hlt : Float.ofInt a < Float.ofInt b ↔ compare (rounded a) (rounded b) = .lt := by
    show decide ((Float.ofInt a).toModel < (Float.ofInt b).toModel) = true ↔ _
    rw [decide_eq_true_iff]
    show ((Float.ofInt a).toModel.unpack.compare (Float.ofInt b).toModel.unpack == some .lt) = true ↔ _
    rw [hcompare, beq_iff_eq, Option.some_inj]
  have heq : (Float.ofInt a == Float.ofInt b) = true ↔ compare (rounded a) (rounded b) = .eq := by
    show ((Float.ofInt a).toModel.unpack.compare (Float.ofInt b).toModel.unpack == some .eq) = true ↔ _
    rw [hcompare, beq_iff_eq, Option.some_inj]
  simp only [compareDoubles, hlt, heq]
  cases compare (rounded a) (rounded b) <;> rfl

theorem order?_int {a b : Int} (ha : InInt64 a) (hb : InInt64 b) :
    order? (.int a) (.int b) = some (compare (rounded a) (rounded b)) :=
  congrArg some (compareDoubles_ofInt ha hb)

theorem valuesEqual_int {a b : Int} (ha : InInt64 a) (hb : InInt64 b) :
    valuesEqual (.int a) (.int b) = decide (a = b) := by
  rw [valuesEqual, Value.int64?_int ha, Value.int64?_int hb]
  rfl

/-- What the comparison says of two integers, as a value. -/
def Comparison.verdict (op : Comparison) (a b : Int) : Value := .bool (decide (op.Holds a b))

/-- Equality is exact. -/
theorem Comparison.apply_int_of_mem_equality {a b : Int} (ha : InInt64 a) (hb : InInt64 b) :
    ∀ op ∈ [eq, ne], op.apply (.int a) (.int b) = .ok (op.verdict a b) := by
  simp only [List.forall_mem_cons, List.not_mem_nil, false_implies, implies_true, and_true, apply,
    valuesEqual_int ha hb]
  exact ⟨rfl, congrArg (fun b => Except.ok (Value.bool b)) (decide_not (p := a = b)).symm⟩

theorem ordered_int {a b : Int} (ha : InInt64 a) (hb : InInt64 b) {holds : Ordering → Bool} {p : Prop} [Decidable p]
    (h : holds (compare (rounded a) (rounded b)) = true ↔ p) :
    ordered (.int a) (.int b) holds = .ok (.bool (decide p)) := by
  rw [ordered, order?_int ha hb, ← Bool.eq_iff_iff.mpr (h.trans decide_eq_true_iff.symm)]

/-- The order is that of the nearest doubles. -/
theorem Comparison.apply_int_of_mem_order {a b : Int} (ha : InInt64 a) (hb : InInt64 b) :
    ∀ op ∈ [lt, le, gt, ge], op.apply (.int a) (.int b) = .ok (op.verdict (rounded a) (rounded b)) := by
  simp only [List.forall_mem_cons, List.not_mem_nil, false_implies, implies_true, and_true]
  exact ⟨ordered_int ha hb (Ordering.isLT_iff_eq_lt.trans compare_lt_iff_lt), ordered_int ha hb Int.isLE_compare,
    ordered_int ha hb (Ordering.isGT_iff_eq_gt.trans compare_gt_iff_gt), ordered_int ha hb Int.isGE_compare⟩

theorem Comparison.ok_verdict_eq_iff {op : Comparison} {a b c d : Int} :
    (.ok (op.verdict a b) : Except EvalError Value) = .ok (op.verdict c d) ↔ (op.Holds a b ↔ op.Holds c d) := by
  simp [verdict]

theorem Comparison.ok_verdict_eq_true_iff {op : Comparison} {a b : Int} :
    (.ok (op.verdict a b) : Except EvalError Value) = .ok (.bool true) ↔ op.Holds a b := by
  simp [verdict]

/-! ## When the order is exact -/

section

variable {value : Comparison → Except EvalError Value} {a b x y : Int}
  (heq : ∀ op ∈ [.eq, .ne], value op = .ok (op.verdict a b))
  (horder : ∀ op ∈ [.lt, .le, .gt, .ge], value op = .ok (op.verdict x y))

include heq horder

/-- The comparisons that are true. -/
theorem comparisons_true : (value .lt = .ok (.bool true) ↔ x < y) ∧ (value .eq = .ok (.bool true) ↔ a = b) ∧
    (value .gt = .ok (.bool true) ↔ y < x) := by
  rw [heq .eq (by simp), horder .lt (by simp), horder .gt (by simp)]
  simp only [Comparison.ok_verdict_eq_true_iff, Comparison.Holds, and_self]

variable (hsame : a = b → x = y) (hless : a < b → x ≤ y) (hmore : b < a → y ≤ x)

include hsame hless hmore

theorem comparisons_exact_iff : (∀ op, value op = .ok (op.verdict a b)) ↔ a = b ∨ x ≠ y := by
  constructor
  · intro hexact
    have hlt := (horder .lt (by simp)).symm.trans (hexact .lt)
    have hgt := (horder .gt (by simp)).symm.trans (hexact .gt)
    rw [Comparison.ok_verdict_eq_iff] at hlt hgt
    simp only [Comparison.Holds] at hlt hgt
    omega
  · intro hdiffer op
    by_cases hop : op ∈ [.eq, .ne]
    · exact heq op hop
    · have hop' : op ∈ [.lt, .le, .gt, .ge] := by cases op <;> simp_all
      rw [horder op hop', Comparison.ok_verdict_eq_iff]
      cases op <;> simp only [Comparison.Holds] <;> omega

theorem comparisons_trichotomy_iff :
    (∃! op, op ∈ [.lt, .eq, .gt] ∧ value op = .ok (.bool true)) ↔ a = b ∨ x ≠ y := by
  obtain ⟨hlt, hab, hgt⟩ := comparisons_true heq horder
  have hcases : ∀ op, op ∈ [.lt, .eq, .gt] ∧ value op = .ok (.bool true) →
      op = .lt ∧ x < y ∨ op = .eq ∧ a = b ∨ op = .gt ∧ y < x := by
    rintro op ⟨hop, htrue⟩
    simp only [List.mem_cons, List.not_mem_nil, or_false] at hop
    rcases hop with rfl | rfl | rfl
    · exact .inl ⟨rfl, hlt.mp htrue⟩
    · exact .inr (.inl ⟨rfl, hab.mp htrue⟩)
    · exact .inr (.inr ⟨rfl, hgt.mp htrue⟩)
  constructor
  · rintro ⟨op, hop, -⟩
    have := hcases op hop
    omega
  · intro hdiffer
    -- the comparison that is true, and no other one of the three
    rcases lt_trichotomy x y with hxy | hxy | hxy
    · refine ⟨.lt, ⟨by simp, hlt.mpr hxy⟩, fun op hop => ?_⟩
      rcases hcases op hop with ⟨rfl, -⟩ | ⟨-, h⟩ | ⟨-, h⟩
      · rfl
      all_goals omega
    · refine ⟨.eq, ⟨by simp, hab.mpr (by omega)⟩, fun op hop => ?_⟩
      rcases hcases op hop with ⟨-, h⟩ | ⟨rfl, -⟩ | ⟨-, h⟩
      · omega
      · rfl
      · omega
    · refine ⟨.gt, ⟨by simp, hgt.mpr hxy⟩, fun op hop => ?_⟩
      rcases hcases op hop with ⟨-, h⟩ | ⟨-, h⟩ | ⟨rfl, -⟩
      · omega
      · omega
      · rfl

omit heq in
theorem comparisons_le_iff : value .le = .ok (.bool (decide (x < y ∨ a = b))) ↔ a = b ∨ x ≠ y := by
  rw [horder .le (by simp), Comparison.verdict, Except.ok.injEq, Value.bool.injEq, decide_eq_decide, Comparison.Holds]
  omega

end

/-! ## Expressions -/

section

variable {scope : Scope} {left right : Expr} {a b : Int}

theorem eval_comparison (hleft : left.eval scope = .ok (.int a)) (hright : right.eval scope = .ok (.int b))
    (op : Comparison) : (Expr.binary (.comparison op) left right).eval scope = op.apply (.int a) (.int b) := by
  rw [Expr.eval, hleft, hright]
  rfl

theorem eval_or_of_bool {p q : Prop} [Decidable p] [Decidable q] (hleft : left.eval scope = .ok (.bool (decide p)))
    (hright : right.eval scope = .ok (.bool (decide q))) :
    (Expr.binary .or left right).eval scope = .ok (.bool (decide (p ∨ q))) := by
  rw [Expr.eval, hleft]
  by_cases hp : p
  · simp [hp, bind, Except.bind, Value.truthy]
  · simp [hp, bind, Except.bind, Value.truthy, hright]

/-- **The comparisons of two integers.** Equality is exact, and the order is that of the nearest doubles. All six
comparisons are exact if and only if the integers are the same or their nearest doubles differ. Just then exactly one of
`a < b`, `a == b` and `a > b` is true, and `a <= b` is `a < b or a == b`. -/
theorem compare_integers (ha : InInt64 a) (hb : InInt64 b) (hleft : left.eval scope = .ok (.int a))
    (hright : right.eval scope = .ok (.int b)) :
    let compared (op : Comparison) : Expr := .binary (.comparison op) left right
    let value (op : Comparison) := (compared op).eval scope
    ∃ x y, IsNearest a x ∧ IsNearest b y ∧
      (∀ op ∈ [.eq, .ne], value op = .ok (op.verdict a b)) ∧
      (∀ op ∈ [.lt, .le, .gt, .ge], value op = .ok (op.verdict x y)) ∧
      ((∀ op, value op = .ok (op.verdict a b)) ↔ a = b ∨ x ≠ y) ∧
      ((∃! op, op ∈ [.lt, .eq, .gt] ∧ value op = .ok (.bool true)) ↔ a = b ∨ x ≠ y) ∧
      (value .le = (Expr.binary .or (compared .lt) (compared .eq)).eval scope ↔ a = b ∨ x ≠ y) := by
  intro compared value
  have hvalue (op : Comparison) : value op = op.apply (.int a) (.int b) := eval_comparison hleft hright op
  have heq : ∀ op ∈ [.eq, .ne], value op = .ok (op.verdict a b) := by
    simpa only [hvalue] using Comparison.apply_int_of_mem_equality ha hb
  have horder : ∀ op ∈ [.lt, .le, .gt, .ge], value op = .ok (op.verdict (rounded a) (rounded b)) := by
    simpa only [hvalue] using Comparison.apply_int_of_mem_order ha hb
  have hx : IsNearest a (rounded a) := isNearest_rounded a
  have hy : IsNearest b (rounded b) := isNearest_rounded b
  have hsame : a = b → rounded a = rounded b := congrArg rounded
  refine ⟨rounded a, rounded b, hx, hy, heq, horder,
    comparisons_exact_iff heq horder hsame (hx.mono hy) (hy.mono hx),
    comparisons_trichotomy_iff heq horder hsame (hx.mono hy) (hy.mono hx), ?_⟩
  have hor : (Expr.binary .or (compared .lt) (compared .eq)).eval scope = _ :=
    eval_or_of_bool (horder .lt (by simp)) (heq .eq (by simp))
  rw [hor]
  exact comparisons_le_iff horder hsame (hx.mono hy) (hy.mono hx)

/-- Two integers that are no doubles, with a third one between them that is none either. -/
theorem compare_integers_apart :
    let scope : Scope := ⟨fun _ => none, true, id⟩
    let left : Expr := .literal (.int 9007199254740993)
    let right : Expr := .literal (.int 9007199254740995)
    InInt64 9007199254740993 ∧ InInt64 9007199254740995 ∧
      left.eval scope = .ok (.int 9007199254740993) ∧ right.eval scope = .ok (.int 9007199254740995) ∧
      ∀ op : Comparison, (Expr.binary (.comparison op) left right).eval scope =
        .ok (op.verdict 9007199254740993 9007199254740995) := by
  intro scope left right
  have ha : InInt64 9007199254740993 := by decide
  have hb : InInt64 9007199254740995 := by decide
  have hleft : left.eval scope = .ok (.int 9007199254740993) := rfl
  have hright : right.eval scope = .ok (.int 9007199254740995) := rfl
  obtain ⟨x, y, -, -, -, horder, hexact, -⟩ := compare_integers ha hb hleft hright
  have hlt : (Expr.binary (.comparison .lt) left right).eval scope = .ok (.bool true) := rfl
  have hless : x < y := Comparison.ok_verdict_eq_true_iff.mp ((horder .lt (by simp)).symm.trans hlt)
  exact ⟨ha, hb, hleft, hright, hexact.mpr (.inr hless.ne)⟩

/-- 2⁵³ is not less than its successor, which is no double. -/
theorem not_all_comparisons_exact :
    ¬ ∀ (scope : Scope) (left right : Expr) (a b : Int), InInt64 a → InInt64 b → left.eval scope = .ok (.int a) →
      right.eval scope = .ok (.int b) →
      ∀ op : Comparison, (Expr.binary (.comparison op) left right).eval scope = .ok (op.verdict a b) := by
  intro hall
  have hexact := hall ⟨fun _ => none, true, id⟩ (.literal (.int 9007199254740992)) (.literal (.int 9007199254740993))
    9007199254740992 9007199254740993 (by decide) (by decide) rfl rfl .lt
  have hvalue : (Expr.binary (.comparison .lt) (.literal (.int 9007199254740992))
    (.literal (.int 9007199254740993))).eval ⟨fun _ => none, true, id⟩ = .ok (.bool false) := rfl
  have hfalse : false = true := Value.bool.inj (Except.ok.inj (hvalue.symm.trans hexact))
  cases hfalse

end

end Stencil.Script
