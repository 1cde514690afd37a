import Mathlib.Data.Int.Order.Basic
import Mathlib.Algebra.Order.Group.Int
import Mathlib.Algebra.Order.Ring.Int
import Mathlib.Tactic.Ring
import Mathlib.Tactic.Linarith

/-!
# The double nearest to an integer

What it means that a double is the nearest one to an integer (`Number.IsNearest`), said without the bits of a double:
its mantissa has at most 53 bits, no other one is nearer, and of two that are as near it is the one with an even
mantissa. `Number.rounded` computes it by one rounding to a multiple of a power of two (`isNearest_rounded`).
-/

namespace Stencil.Number

/-- The integer is a double: a mantissa of at most 53 bits times a power of two. -/
def IsDouble (x : Int) : Prop := ∃ (m : Int) (e : Nat), m.natAbs < 2 ^ 53 ∧ x = m * 2 ^ e

/-- The double nearest to an integer. Of two that are as near it is the one with an even mantissa, which is a multiple
of twice their distance. -/
structure IsNearest (n x : Int) : Prop where
  double : IsDouble x
  nearest : ∀ y, IsDouble y → (n - x).natAbs ≤ (n - y).natAbs
  even : ∀ y, IsDouble y → y ≠ x → (n - x).natAbs = (n - y).natAbs → 2 * (x - y) ∣ x

/-- The whole number nearest to `n / d`, and of two that are as near the even one. -/
def halfEven (n d : Nat) : Nat :=
  if 2 * (n % d) < d then n / d
  else if 2 * (n % d) = d then n / d + n / d % 2
  else n / d + 1

/-- The double nearest to a natural number. -/
def roundedNat (n : Nat) : Nat := halfEven n (2 ^ (n.log2 - 52)) * 2 ^ (n.log2 - 52)

/-- The double nearest to an integer. -/
def rounded : Int → Int
  | .ofNat n => roundedNat n
  | .negSucc n => -roundedNat (n + 1)

/-! ## Rounding to a multiple -/

theorem halfEven_bounds (n d : Nat) : n / d ≤ halfEven n d ∧ halfEven n d ≤ n / d + 1 := by
  unfold halfEven
  split_ifs <;> omega

theorem halfEven_one (n : Nat) : halfEven n 1 = n := by simp [halfEven, Nat.mod_one]

theorem halfEven_mul {c : Nat} (hc : 0 < c) (n d : Nat) : halfEven (n * c) (d * c) = halfEven n d := by
  have hless : 2 * (n % d * c) < d * c ↔ 2 * (n % d) < d := by
    rw [← Nat.mul_assoc]
    exact Nat.mul_lt_mul_right hc
  have hsame : 2 * (n % d * c) = d * c ↔ 2 * (n % d) = d := by
    rw [← Nat.mul_assoc]
    exact Nat.mul_left_inj hc.ne'
  simp only [halfEven, Nat.mul_div_mul_right n d hc, Nat.mul_mod_mul_right, hless, hsame]

/-- Rounding is off by at most a half, and comes to an even number if it is off by a half. -/
theorem halfEven_off {d : Nat} (hd : 0 < d) (n : Nat) :
    2 * ((n : Int) - halfEven n d * d).natAbs ≤ d ∧
      (2 * ((n : Int) - halfEven n d * d).natAbs = d → halfEven n d % 2 = 0) := by
  have hn : (n : Int) = (n / d : Nat) * (d : Int) + (n % d : Nat) := by
    exact_mod_cast (Nat.div_add_mod' n d).symm
  have hr : n % d < d := Nat.mod_lt n hd
  have hstep : ((n / d + 1 : Nat) : Int) * d = (n / d : Nat) * (d : Int) + d := by push_cast; ring
  unfold halfEven
  generalize (n / d : Nat) = q at *
  generalize n % d = r at *
  split_ifs with hless htie
  · omega
  · rcases Nat.mod_two_eq_zero_or_one q with hq | hq
    · rw [hq, Nat.add_zero]
      omega
    · rw [hq]
      omega
  · omega

/-- What is off by at most a half is no farther than any other multiple, and is as far as another one only if it is off
by a half. -/
theorem natAbs_sub_le_of_dvd {n x y : Int} {d : Nat} (hoff : 2 * (n - x).natAbs ≤ d) (hxy : (d : Int) ∣ x - y) :
    (n - x).natAbs ≤ (n - y).natAbs ∧
      (y ≠ x → (n - x).natAbs = (n - y).natAbs → 2 * (n - x).natAbs = d ∧ (x - y).natAbs = d) := by
  rcases eq_or_ne y x with rfl | hne
  · exact ⟨le_refl _, fun h => absurd rfl h⟩
  · have hfar : d ≤ (x - y).natAbs :=
      Nat.le_of_dvd (Int.natAbs_pos.mpr (sub_ne_zero.mpr hne.symm)) (Int.natCast_dvd.mp hxy)
    omega

/-! ## Doubles -/

theorem IsDouble.neg {x : Int} (h : IsDouble x) : IsDouble (-x) := by
  obtain ⟨m, e, hm, rfl⟩ := h
  exact ⟨-m, e, by omega, by ring⟩

theorem isDouble_of_le {m : Nat} (hm : m ≤ 2 ^ 53) (e : Nat) : IsDouble (m * 2 ^ e) := by
  rcases Nat.lt_or_eq_of_le hm with hlt | rfl
  · exact ⟨m, e, hlt, rfl⟩
  · exact ⟨1, 53 + e, by decide, by push_cast; ring⟩

/-- From `2 ^ (52 + e)` on the doubles are multiples of `2 ^ e`. -/
theorem IsDouble.dvd {x : Int} {e : Nat} (h : IsDouble x) (hx : 2 ^ (52 + e) ≤ x) : (2 ^ e : Int) ∣ x := by
  obtain ⟨m, f, hm, rfl⟩ := h
  rcases Nat.lt_or_ge f e with hfe | hfe
  · have hpow : (2 ^ 53 * 2 ^ f : Int) ≤ 2 ^ (52 + e) := by
      rw [← pow_add]
      exact pow_le_pow_right₀ (by decide) (by omega)
    have hlt : m * 2 ^ f < 2 ^ 53 * 2 ^ f := Int.mul_lt_mul_of_pos_right (by omega) (by positivity)
    omega
  · exact Dvd.dvd.mul_left (pow_dvd_pow 2 hfe) m

theorem halfEven_le {n : Nat} : halfEven n (2 ^ (n.log2 - 52)) ≤ 2 ^ 53 := by
  have hn : n < 2 ^ 53 * 2 ^ (n.log2 - 52) := by
    rw [← pow_add]
    exact lt_of_lt_of_le Nat.lt_log2_self (Nat.pow_le_pow_right (by decide) (by omega))
  have hdiv := (Nat.div_lt_iff_lt_mul (Nat.two_pow_pos (n.log2 - 52))).mpr hn
  have := (halfEven_bounds n (2 ^ (n.log2 - 52))).2
  omega

theorem roundedNat_of_lt {n : Nat} (h : n < 2 ^ 53) : roundedNat n = n := by
  have hlog : n.log2 - 52 = 0 := by
    rcases Nat.eq_zero_or_pos n with rfl | hpos
    · rfl
    · have := (Nat.log2_lt hpos.ne').mpr h
      omega
  rw [roundedNat, hlog, pow_zero, halfEven_one, Nat.mul_one]

/-- What is off from a large number by at most half of `2 ^ e`, and is a multiple of it, is no farther than any
double. -/
theorem nearest_of_multiple {n q e : Nat} (hn : 2 ^ (52 + e) ≤ n)
    (hoff : 2 * ((n : Int) - q * 2 ^ e).natAbs ≤ 2 ^ e) {y : Int} (hy : IsDouble y) :
    ((n : Int) - q * 2 ^ e).natAbs ≤ ((n : Int) - y).natAbs ∧
      (y ≠ q * 2 ^ e → ((n : Int) - q * 2 ^ e).natAbs = ((n : Int) - y).natAbs →
        2 * ((n : Int) - q * 2 ^ e).natAbs = 2 ^ e ∧ ((q : Int) * 2 ^ e - y).natAbs = 2 ^ e) := by
  have hn' : (2 ^ (52 + e) : Int) ≤ n := by exact_mod_cast hn
  have hmultiple : ((2 ^ e : Nat) : Int) ∣ (q : Int) * 2 ^ e := ⟨q, by push_cast; ring⟩
  rcases Int.lt_or_le y (2 ^ (52 + e)) with hlow | hhigh
  · -- below the power of two that leads the number, this power itself is nearer
    have hpow : ((2 ^ e : Nat) : Int) ∣ 2 ^ (52 + e) := ⟨2 ^ 52, by push_cast; ring⟩
    have := (natAbs_sub_le_of_dvd hoff (Int.dvd_sub hmultiple hpow)).1
    omega
  · have hdvd : ((2 ^ e : Nat) : Int) ∣ y := by exact_mod_cast hy.dvd hhigh
    exact natAbs_sub_le_of_dvd hoff (Int.dvd_sub hmultiple hdvd)

theorem isNearest_roundedNat (n : Nat) : IsNearest n (roundedNat n) := by
  rcases Nat.lt_or_ge n (2 ^ 53) with hsmall | hlarge
  · rw [roundedNat_of_lt hsmall]
    exact ⟨⟨n, 0, hsmall, by ring⟩, fun y _ => by omega, fun y _ hne heq => by omega⟩
  · have hlog : 53 ≤ n.log2 := (Nat.le_log2 (by omega)).mpr hlarge
    obtain ⟨e, he⟩ : ∃ e, n.log2 = 52 + e := ⟨n.log2 - 52, by omega⟩
    have hlow : 2 ^ (52 + e) ≤ n := he ▸ Nat.log2_self_le (by omega)
    have hle : halfEven n (2 ^ (n.log2 - 52)) ≤ 2 ^ 53 := halfEven_le
    obtain ⟨hoff, htie⟩ := halfEven_off (Nat.two_pow_pos e) n
    rw [roundedNat]
    rw [he, Nat.add_sub_cancel_left] at hle ⊢
    push_cast at hoff htie ⊢
    refine ⟨isDouble_of_le hle e, fun y hy => (nearest_of_multiple hlow hoff hy).1, ?_⟩
    intro y hy hne heq
    obtain ⟨hhalf, hdist⟩ := (nearest_of_multiple hlow hoff hy).2 hne heq
    obtain ⟨q, hq⟩ := Nat.dvd_of_mod_eq_zero (htie hhalf)
    have hdvd : 2 * (((halfEven n (2 ^ e) : Nat) : Int) * 2 ^ e - y).natAbs ∣ halfEven n (2 ^ e) * 2 ^ e := by
      rw [hdist, hq]
      exact ⟨q, by ring⟩
    rw [← Int.natAbs_dvd_natAbs, Int.natAbs_mul]
    exact_mod_cast hdvd

/-- Of two integers the greater one has no lesser nearest double. -/
theorem IsNearest.mono {a b x y : Int} (hx : IsNearest a x) (hy : IsNearest b y) (h : a < b) : x ≤ y := by
  have hcloser := hx.nearest y hy.double
  have hcloser' := hy.nearest x hx.double
  omega

theorem IsNearest.neg {n x : Int} (h : IsNearest n x) : IsNearest (-n) (-x) where
  double := h.double.neg
  nearest y hy := by
    have := h.nearest (-y) hy.neg
    omega
  even y hy hne heq := by
    have := h.even (-y) hy.neg (by omega) (by omega)
    rwa [show 2 * (-x - y) = -(2 * (x - -y)) by ring, Int.neg_dvd, Int.dvd_neg]

/-- The computed double is the nearest one. -/
theorem isNearest_rounded (n : Int) : IsNearest n (rounded n) := by
  cases n with
  | ofNat n => exact isNearest_roundedNat n
  | negSucc n => exact (isNearest_roundedNat (n + 1)).neg

end Stencil.Number
