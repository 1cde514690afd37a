import Mathlib
import Stencil.Proofs.Rounding

/-!
# Integers as doubles

The double of an integer of 64 bits is the nearest one, and such doubles are compared as the integers that they are.
An unpacked double `Denotes` an integer if its mantissa has full length and its value is the integer.

Up to 53 bits an integer is taken over as it is and multiplied with one, which changes nothing (`Denotes.mul_one`). A
larger one is rounded from a mantissa that is too long; what shifting it to the right leaves behind is the quotient and
the comparison of the remainder with a half (`Shifted`), so it is rounded as `halfEven` does
(`exists_roundWithAccuracy_eq`). The main statements are `denotes_ofInt` and `Denotes.compare_eq`.
-/

namespace Stencil.Number

open Float.Model Float.Model.UnpackedFloat

/-! ## Mantissas that are shifted -/

/-- The mantissa is the quotient `n / d`, and the two bits behind it say how its remainder compares with a half. -/
def Shifted (em : ExtendedMantissa) (n d : Nat) : Prop :=
  em.mantissa = n / d ∧ (em.roundBit = true ↔ d ≤ 2 * (n % d)) ∧
    (em.stickyBit = true ↔ n % d ≠ 0 ∧ 2 * (n % d) ≠ d)

theorem Shifted.one (n : Nat) : Shifted (.ofMantissaAndAccuracy n .exact) n 1 := by
  simp [Shifted, ExtendedMantissa.ofMantissaAndAccuracy, Nat.mod_one]

theorem Shifted.roundedMantissa {em : ExtendedMantissa} {n d : Nat} (h : Shifted em n d) (hd : 0 < d) :
    em.roundedMantissa = halfEven n d := by
  obtain ⟨m, r, s⟩ := em
  obtain ⟨rfl, hr, hs⟩ := h
  dsimp only at hr hs
  unfold halfEven
  cases r <;> cases s <;>
    simp only [ExtendedMantissa.roundedMantissa, ExtendedMantissa.accuracy, Accuracy.roundToNearestEven] <;>
    split_ifs <;> simp at hr hs <;> omega

theorem Shifted.shiftRightOne {em : ExtendedMantissa} {n d : Nat} (h : Shifted em n d) (hd : 0 < d) :
    Shifted em.shiftRightOne n (d * 2) := by
  obtain ⟨m, r, s⟩ := em
  obtain ⟨rfl, hr, hs⟩ := h
  dsimp only at hr hs
  have hmod : n % (d * 2) = n % d + d * (n / d % 2) := Nat.mod_mul
  have hlt : n % d < d := Nat.mod_lt n hd
  have hsticky : (r || s) = true ↔ n % d ≠ 0 := by
    rw [Bool.or_eq_true, hr, hs]
    omega
  refine ⟨Nat.div_div_eq_div_mul n d 2, ?_, ?_⟩
  · rw [hmod]
    rcases Nat.mod_two_eq_zero_or_one (n / d) with hbit | hbit <;> simp [ExtendedMantissa.shiftRightOne, hbit] <;> omega
  · rw [hmod]
    dsimp only [ExtendedMantissa.shiftRightOne]
    rw [hsticky]
    rcases Nat.mod_two_eq_zero_or_one (n / d) with hbit | hbit <;> simp [hbit] <;> omega

theorem shifted_shiftRight (n k : Nat) :
    Shifted (ExtendedMantissa.ofMantissaAndAccuracy n .exact >>> k) n (2 ^ k) := by
  induction k with
  | zero => exact Shifted.one n
  | succ k ih => exact ih.shiftRightOne (Nat.two_pow_pos k)

theorem roundedMantissa_shiftRight (n k : Nat) :
    (ExtendedMantissa.ofMantissaAndAccuracy n .exact >>> k).roundedMantissa = halfEven n (2 ^ k) :=
  (shifted_shiftRight n k).roundedMantissa (Nat.two_pow_pos k)

/-- A mantissa with more than 53 bits is cut down to 53 bits. -/
theorem shiftToTargetExponent_eq {m k : Nat} {e : Int} (hm : m.log2 = 52 + k) (he : -1074 ≤ e + k) :
    shiftToTargetExponent .binary64 m e .exact = (ExtendedMantissa.ofMantissaAndAccuracy m .exact >>> k, e + k) := by
  have htarget : Format.binary64.targetExponent (totalExponent m e) = e + k := by
    simp only [Format.targetExponent, totalExponent, Format.mantissaBits, Format.minExponent, hm]
    omega
  simp only [shiftToTargetExponent, shiftToExponent, htarget, add_sub_cancel_left, Int.toNat_natCast]

theorem mantissa_shiftRight (n k : Nat) :
    (ExtendedMantissa.ofMantissaAndAccuracy n .exact >>> k).mantissa = n / 2 ^ k :=
  (shifted_shiftRight n k).1

/-- Rounding takes two shifts: the second one follows a mantissa that rounding has made longer. -/
theorem roundWithAccuracy_of_shifts {m n k j : Nat} {e e' : Int} (s : Sign)
    (hfirst : shiftToTargetExponent .binary64 m e .exact = (ExtendedMantissa.ofMantissaAndAccuracy m .exact >>> k, e'))
    (hsecond : shiftToTargetExponent .binary64 (halfEven m (2 ^ k)) e' .exact =
      (ExtendedMantissa.ofMantissaAndAccuracy (halfEven m (2 ^ k)) .exact >>> j, e' + j))
    (hn : halfEven m (2 ^ k) / 2 ^ j = n) (hpos : 0 < n) :
    roundWithAccuracy .binary64 s m e .exact = .finite s n (e' + j) hpos := by
  subst hn
  unfold roundWithAccuracy
  simp only [hfirst, roundedMantissa_shiftRight, hsecond, mantissa_shiftRight]
  exact dif_neg hpos.ne'

/-- The mantissa is rounded to 53 bits; should it come to 54 bits by that, it is a power of two and is halved. -/
theorem exists_roundWithAccuracy_eq {m k : Nat} {e : Int} (s : Sign) (hm : m.log2 = 52 + k) (he : -1074 ≤ e + k) :
    ∃ (n j : Nat) (hpos : 0 < n), roundWithAccuracy .binary64 s m e .exact = .finite s n (e + k + j) hpos ∧
      2 ^ 52 ≤ n ∧ n < 2 ^ 53 ∧ j ≤ 1 ∧ n * 2 ^ j = halfEven m (2 ^ k) := by
  have hne : m ≠ 0 := by
    rintro rfl
    simp at hm
    omega
  have hlow : 2 ^ 52 ≤ m / 2 ^ k := by
    rw [Nat.le_div_iff_mul_le (Nat.two_pow_pos k), ← pow_add, ← hm]
    exact Nat.log2_self_le hne
  have hhigh : m / 2 ^ k < 2 ^ 53 := by
    rw [Nat.div_lt_iff_lt_mul (Nat.two_pow_pos k), ← pow_add, show 53 + k = m.log2 + 1 by omega]
    exact Nat.lt_log2_self
  obtain ⟨hfloor, hceil⟩ := halfEven_bounds m (2 ^ k)
  have hround := fun n j => roundWithAccuracy_of_shifts (n := n) (j := j) s (shiftToTargetExponent_eq hm he)
  generalize halfEven m (2 ^ k) = q at *
  rcases Nat.lt_or_ge q (2 ^ 53) with hfits | hcarries
  · have hlog : q.log2 = 52 + 0 := by
      have := (Nat.le_log2 (n := q) (k := 52) (by omega)).mpr (by omega)
      have := (Nat.log2_lt (n := q) (k := 53) (by omega)).mpr hfits
      omega
    exact ⟨q, 0, by omega, hround q 0 (shiftToTargetExponent_eq hlog (by omega)) (by simp) _, by omega, hfits,
      by omega, by omega⟩
  · obtain rfl : q = 2 ^ 53 := by omega
    have hlog : (2 ^ 53 : Nat).log2 = 52 + 1 := Nat.log2_two_pow
    exact ⟨2 ^ 52, 1, by decide, hround _ 1 (shiftToTargetExponent_eq hlog (by omega)) rfl _, by decide, by decide,
      by decide, by decide⟩

/-! ## Doubles that are whole -/

/-- The unpacked double is the integer. Its exponent is one that integers of 64 bits have. -/
def Denotes : UnpackedFloat → Int → Prop
  | .zero _, x => x = 0
  | .finite s m e _, x => (2 ^ 52 ≤ m ∧ m < 2 ^ 53) ∧ (-52 ≤ e ∧ e ≤ 12) ∧ s.apply m * 2 ^ (e + 52).toNat = x * 2 ^ 52
  | _, _ => False

theorem Denotes.neg {u : UnpackedFloat} {x : Int} (h : Denotes u x) : Denotes u.neg (-x) := by
  cases u with
  | zero s => simpa [Denotes, UnpackedFloat.neg] using h
  | finite s m e hpos =>
    obtain ⟨hm, he, hx⟩ := h
    refine ⟨hm, he, ?_⟩
    have hsign : (-s).apply m = -s.apply m := by
      cases s
      · exact (Int.neg_neg m).symm
      · rfl
    rw [Int.neg_mul, ← hx, hsign, Int.neg_mul]
  | infinity s => exact h
  | notANumber => exact h

/-- Packing loses nothing of a double whose mantissa has its full length and whose exponent fits. -/
theorem unpack_pack_finite {s : Sign} {m : Nat} {e : Int} {hpos : 0 < m} (hm : 2 ^ 52 ≤ m ∧ m < 2 ^ 53)
    (he : -1074 ≤ e ∧ e ≤ 971) : unpack .binary64 (pack .binary64 (.finite s m e hpos)) = .finite s m e hpos := by
  obtain ⟨b, hb⟩ : ∃ b : Nat, e + 1075 = b := ⟨(e + 1075).toNat, by omega⟩
  have hbias : (Format.binary64.exponentBias : Int) = 1023 := rfl
  have hbiased : (e + Format.binary64.exponentBias + Format.binary64.mantissaBitsWithoutImplicit).toNat = b := by
    simp only [hbias]
    omega
  have hlog : m.log2 + 1 = Format.binary64.mantissaBits := by
    have := (Nat.le_log2 (n := m) (k := 52) (by omega)).mpr hm.1
    have := (Nat.log2_lt (n := m) (k := 53) (by omega)).mpr hm.2
    show m.log2 + 1 = 1 + 52
    omega
  have htoNat : (BitVec.ofNat 11 b).toNat = b := by
    rw [BitVec.toNat_ofNat, Nat.mod_eq_of_lt (by omega)]
  have hne : BitVec.ofNat 11 b ≠ -1#11 ∧ BitVec.ofNat 11 b ≠ 0#11 := by
    constructor
    all_goals
      intro h
      have := congrArg BitVec.toNat h
      rw [htoNat] at this
      simp at this
      omega
  have hmantissa : (1#1 ++ BitVec.ofNat 52 m).toNat = m := by
    rw [BitVec.toNat_append, ← Nat.shiftLeft_add_eq_or_of_lt (BitVec.ofNat 52 m).isLt, BitVec.toNat_ofNat,
      Nat.shiftLeft_eq]
    simp
    omega
  have hpack : pack .binary64 (.finite s m e hpos) =
      packComponents .binary64 s (BitVec.ofNat 11 b) (BitVec.ofNat 52 m) := by
    simp only [UnpackedFloat.pack, hbiased, if_pos hlog]
    exact if_neg (by simp; omega)
  rw [hpack, UnpackedFloat.unpack]
  simp only [unpackMantissa_packComponents, unpackExponent_packComponents, unpackSign_packComponents,
    Sign.ofBitVec_toBitVec, if_neg hne.1, if_neg hne.2, hmantissa, htoNat]
  congr 1
  simp only [hbias]
  omega

theorem Denotes.unpack_pack {u : UnpackedFloat} {x : Int} (h : Denotes u x) :
    unpack .binary64 (pack .binary64 u) = u := by
  cases u with
  | zero s => cases s <;> rfl
  | finite s m e hpos => exact unpack_pack_finite h.1 (by have := h.2.1; omega)
  | infinity s => exact h.elim
  | notANumber => exact h.elim

theorem Denotes.packed {u : UnpackedFloat} {x : Int} (h : Denotes u x) : Denotes (Float.Model.pack u).unpack x := by
  rwa [show (Float.Model.pack u).unpack = u from h.unpack_pack]

/-- Of two mantissas of full length the exponents decide first. -/
theorem compare_scaled {m n : Nat} {e f : Int} (hm : 2 ^ 52 ≤ m ∧ m < 2 ^ 53) (hn : 2 ^ 52 ≤ n ∧ n < 2 ^ 53)
    (he : -52 ≤ e) (hf : -52 ≤ f) :
    (compare e f).then (compare m n) = compare (m * 2 ^ (e + 52).toNat) (n * 2 ^ (f + 52).toNat) := by
  have hless {m n : Nat} {e f : Int} (hm : m < 2 ^ 53) (hn : 2 ^ 52 ≤ n) (he : -52 ≤ e) (hef : e < f) :
      m * 2 ^ (e + 52).toNat < n * 2 ^ (f + 52).toNat :=
    calc m * 2 ^ (e + 52).toNat < 2 ^ 53 * 2 ^ (e + 52).toNat := Nat.mul_lt_mul_of_pos_right hm (Nat.two_pow_pos _)
      _ = 2 ^ 52 * 2 ^ ((e + 52).toNat + 1) := by ring
      _ ≤ n * 2 ^ (f + 52).toNat := Nat.mul_le_mul hn (Nat.pow_le_pow_right (by decide) (by omega))
  rcases lt_trichotomy e f with hef | rfl | hef
  · rw [compare_lt_iff_lt.mpr hef, compare_lt_iff_lt.mpr (hless hm.2 hn.1 he hef)]
    rfl
  · rw [compare_eq_iff_eq.mpr rfl, Ordering.eq_then]
    have hpos := Nat.two_pow_pos (e + 52).toNat
    rcases lt_trichotomy m n with hmn | rfl | hmn
    · rw [compare_lt_iff_lt.mpr hmn, compare_lt_iff_lt.mpr (Nat.mul_lt_mul_of_pos_right hmn hpos)]
    · rw [compare_eq_iff_eq.mpr rfl, compare_eq_iff_eq.mpr rfl]
    · rw [compare_gt_iff_gt.mpr hmn, compare_gt_iff_gt.mpr (Nat.mul_lt_mul_of_pos_right hmn hpos)]
  · rw [compare_gt_iff_gt.mpr hef, compare_gt_iff_gt.mpr (hless hn.2 hm.1 hf hef)]
    rfl

theorem Denotes.positive {m : Nat} {e x : Int} {hm : 0 < m} (h : Denotes (.finite .positive m e hm) x) : 0 < x := by
  have hpos : (0 : Int) < m * 2 ^ (e + 52).toNat := by positivity
  have hx : (m : Int) * 2 ^ (e + 52).toNat = x * 2 ^ 52 := h.2.2
  omega

theorem Denotes.negative {m : Nat} {e x : Int} {hm : 0 < m} (h : Denotes (.finite .negative m e hm) x) : x < 0 := by
  have := h.neg.positive
  omega

theorem Denotes.compare_positive {m n : Nat} {e f x y : Int} {hm : 0 < m} {hn : 0 < n}
    (hu : Denotes (.finite .positive m e hm) x) (hv : Denotes (.finite .positive n f hn) y) :
    (compare e f).then (compare m n) = compare x y := by
  obtain ⟨hm, he, hx⟩ := hu
  obtain ⟨hn, hf, hy⟩ := hv
  replace hx : ((m * 2 ^ (e + 52).toNat : Nat) : Int) = x * 2 ^ 52 := by exact_mod_cast hx
  replace hy : ((n * 2 ^ (f + 52).toNat : Nat) : Int) = y * 2 ^ 52 := by exact_mod_cast hy
  rw [compare_scaled hm hn he.1 hf.1]
  rcases lt_trichotomy x y with hxy | rfl | hxy
  · rw [compare_lt_iff_lt.mpr hxy, compare_lt_iff_lt.mpr (by omega)]
  · rw [compare_eq_iff_eq.mpr rfl, compare_eq_iff_eq.mpr (by omega)]
  · rw [compare_gt_iff_gt.mpr hxy, compare_gt_iff_gt.mpr (by omega)]

theorem swap_compare_neg (x y : Int) : (compare (-x) (-y)).swap = compare x y := by
  rcases lt_trichotomy x y with hxy | rfl | hxy
  · rw [compare_lt_iff_lt.mpr hxy, compare_gt_iff_gt.mpr (neg_lt_neg hxy)]
    rfl
  · rw [compare_eq_iff_eq.mpr rfl, compare_eq_iff_eq.mpr rfl]
    rfl
  · rw [compare_gt_iff_gt.mpr hxy, compare_lt_iff_lt.mpr (neg_lt_neg hxy)]
    rfl

/-- Doubles are compared as the integers that they are. -/
theorem Denotes.compare_eq {u v : UnpackedFloat} {x y : Int} (hu : Denotes u x) (hv : Denotes v y) :
    u.compare v = some (compare x y) := by
  match u, v, hu, hv with
  | .zero _, .zero _, rfl, rfl => rfl
  | .zero _, .finite .positive .., rfl, hv => exact congrArg some (compare_lt_iff_lt.mpr hv.positive).symm
  | .zero _, .finite .negative .., rfl, hv => exact congrArg some (compare_gt_iff_gt.mpr hv.negative).symm
  | .finite .positive .., .zero _, hu, rfl => exact congrArg some (compare_gt_iff_gt.mpr hu.positive).symm
  | .finite .negative .., .zero _, hu, rfl => exact congrArg some (compare_lt_iff_lt.mpr hu.negative).symm
  | .finite .positive .., .finite .negative .., hu, hv =>
    exact congrArg some (compare_gt_iff_gt.mpr (hv.negative.trans hu.positive)).symm
  | .finite .negative .., .finite .positive .., hu, hv =>
    exact congrArg some (compare_lt_iff_lt.mpr (hu.negative.trans hv.positive)).symm
  | .finite .positive .., .finite .positive .., hu, hv => exact congrArg some (hu.compare_positive hv)
  | .finite .negative .., .finite .negative .., hu, hv =>
    have hcompare := Denotes.compare_positive hu.neg hv.neg
    rw [← swap_compare_neg x y, ← hcompare]
    rfl

/-! ## The double of an integer -/

theorem log2_mul_two_pow {n : Nat} (hn : n ≠ 0) (k : Nat) : (n * 2 ^ k).log2 = n.log2 + k := by
  have hpos := Nat.two_pow_pos k
  rw [Nat.log2_eq_iff (Nat.mul_ne_zero hn hpos.ne'), pow_add, Nat.add_right_comm, pow_add]
  exact ⟨Nat.mul_le_mul_right _ (Nat.log2_self_le hn), Nat.mul_lt_mul_of_pos_right Nat.lt_log2_self hpos⟩

theorem denotes_roundWithAccuracy {m k : Nat} {e x : Int} (hlog : m.log2 = 52 + k) (he : -52 ≤ e + k ∧ e + k ≤ 11)
    (hx : (halfEven m (2 ^ k) : Int) * 2 ^ (e + k + 52).toNat = x * 2 ^ 52) :
    Denotes (roundWithAccuracy .binary64 .positive m e .exact) x := by
  obtain ⟨n, j, hpos, heq, hlow, hhigh, hj, hn⟩ := exists_roundWithAccuracy_eq (e := e) .positive hlog (by omega)
  rw [heq]
  refine ⟨⟨hlow, hhigh⟩, by omega, ?_⟩
  rw [← hx, ← hn, show (e + k + j + 52).toNat = j + (e + k + 52).toNat by omega, pow_add, ← Int.mul_assoc]
  push_cast
  rfl

/-- Multiplying with one changes nothing. -/
theorem mul_one_finite {s : Sign} {m : Nat} {e : Int} {hpos : 0 < m} (hm : 2 ^ 52 ≤ m ∧ m < 2 ^ 53) (he : -1074 ≤ e) :
    UnpackedFloat.mul .binary64 (.finite s m e hpos) (.finite .positive (2 ^ 52) (-52) (by decide)) =
      .finite s m e hpos := by
  have hlog : m.log2 = 52 + 0 := (Nat.log2_eq_iff hpos.ne').mpr hm
  have hlog' : (m * 2 ^ 52).log2 = 52 + 52 := by rw [log2_mul_two_pow hpos.ne', hlog]
  have hround : halfEven (m * 2 ^ 52) (2 ^ 52) = m := by
    have := halfEven_mul (Nat.two_pow_pos 52) m 1
    rwa [halfEven_one, Nat.one_mul] at this
  have hfirst := shiftToTargetExponent_eq (e := e + -52) hlog' (by omega)
  have hsecond := shiftToTargetExponent_eq (e := e) hlog (by omega)
  rw [show e + -52 + (52 : Nat) = e by omega] at hfirst
  have hsign : s * .positive = s := by cases s <;> rfl
  show roundWithAccuracy .binary64 (s * .positive) (m * 2 ^ 52) (e + -52) .exact = _
  rw [hsign, roundWithAccuracy_of_shifts s hfirst (hround.symm ▸ hsecond) (by rw [pow_zero, Nat.div_one, hround]) hpos]
  simp

theorem Denotes.mul_one {u : UnpackedFloat} {x : Int} (h : Denotes u x) :
    UnpackedFloat.mul .binary64 u (.finite .positive (2 ^ 52) (-52) (by decide)) = u := by
  cases u with
  | zero s => cases s <;> rfl
  | finite s m e hpos => exact mul_one_finite h.1 (by have := h.2.1; omega)
  | infinity s => exact h.elim
  | notANumber => exact h.elim

/-- An integer of 53 bits is a double. -/
theorem denotes_whole {n : Nat} (h : n < 2 ^ 53) : Denotes (UnpackedFloat.ofInt .binary64 n) n := by
  rcases Nat.eq_zero_or_pos n with rfl | hpos
  · exact rfl
  · obtain ⟨c, hc⟩ : ∃ c, n.log2 + c = 52 := by
      have := (Nat.log2_lt hpos.ne').mpr h
      exact ⟨52 - n.log2, by omega⟩
    have hlog : (n * 2 ^ c).log2 = 52 + 0 := by rw [log2_mul_two_pow hpos.ne', hc]
    have hround : UnpackedFloat.ofInt .binary64 n =
        roundWithAccuracy .binary64 .positive (n * 2 ^ c) (-c) .exact := by
      have hgt : compare (n : Int) 0 = .gt := compare_gt_iff_gt.mpr (by omega)
      have htarget : Format.binary64.targetExponent (totalExponent n 0) = -c := by
        simp only [Format.targetExponent, totalExponent, Format.mantissaBits, Format.minExponent]
        omega
      simp only [UnpackedFloat.ofInt, UnpackedFloat.normalize, hgt, UnpackedFloat.round, htarget, decreaseExponent,
        Int.toNat_natCast]
      simp [Nat.shiftLeft_eq]
    rw [hround]
    refine denotes_roundWithAccuracy hlog (by omega) ?_
    rw [pow_zero, halfEven_one, show (-(c : Int) + (0 : Nat) + 52).toNat = n.log2 by omega]
    push_cast
    rw [Int.mul_assoc, ← pow_add, Nat.add_comm, hc]
    rfl

theorem toModel_toFloat {n : Nat} (h : n < 2 ^ 64) :
    n.toUInt64.toFloat.toModel = Float.Model.pack (UnpackedFloat.ofInt .binary64 n) := by
  have : n.toUInt64.toNat = n := Nat.mod_eq_of_lt h
  show Float.Model.pack (UnpackedFloat.ofInt .binary64 n.toUInt64.toNat) = _
  rw [this]

theorem denotes_ofNat_of_lt {n : Nat} (h : n < 2 ^ 53) : Denotes (Float.ofNat n).toModel.unpack n := by
  have hint := denotes_whole h
  have hfloat : n.toUInt64.toFloat.toModel.unpack = UnpackedFloat.ofInt .binary64 n := by
    rw [toModel_toFloat (by omega)]
    exact hint.unpack_pack
  have hone : (Float.exactlyRepresentablePowersOfTen[0]).toModel.unpack =
      .finite .positive (2 ^ 52) (-52) (by decide) := rfl
  have hofNat : (Float.ofNat n).toModel = Float.Model.pack (UnpackedFloat.mul .binary64
      n.toUInt64.toFloat.toModel.unpack (Float.exactlyRepresentablePowersOfTen[0]).toModel.unpack) := by
    show (Float.ofScientific n false 0).toModel = _
    rw [Float.ofScientific, dif_pos ⟨h, by decide⟩]
    rfl
  rw [hofNat, hfloat, hone, hint.mul_one]
  exact hint.packed

/-- A larger integer is rounded once, with 53 more bits behind it that are zero. -/
theorem ofScientific_eq {n : Nat} (hn : n ≠ 0) :
    UnpackedFloat.ofScientific .binary64 n 0 =
      roundWithAccuracy .binary64 .positive (n * 2 ^ 53) (-53) .exact := by
  have hmantissa : n <<< 53 * 10 ^ (0 : Int).toNat = n * 2 ^ 53 := by
    rw [Nat.shiftLeft_eq]
    exact Nat.mul_one _
  have hlow : ¬(0 : Int) < -(2 ^ Format.binary64.exponentBits + (n.log2 : Int)) := by
    have : (0 : Int) < 2 ^ Format.binary64.exponentBits := by decide
    omega
  rw [UnpackedFloat.ofScientific, dif_neg hn, if_neg (by decide), if_neg hlow, if_pos (le_refl 0), ← hmantissa]
  rfl

theorem denotes_ofNat {n : Nat} (h : n < 2 ^ 64) : Denotes (Float.ofNat n).toModel.unpack (roundedNat n) := by
  rcases Nat.lt_or_ge n (2 ^ 53) with hsmall | hlarge
  · rw [roundedNat_of_lt hsmall]
    exact denotes_ofNat_of_lt hsmall
  · obtain ⟨j, hj⟩ : ∃ j, n.log2 = 52 + j := by
      have := (Nat.le_log2 (n := n) (k := 53) (by omega)).mpr hlarge
      exact ⟨n.log2 - 52, by omega⟩
    have hfew : j ≤ 11 := by
      have := (Nat.log2_lt (n := n) (k := 64) (by omega)).mpr h
      omega
    have hofNat : (Float.ofNat n).toModel = Float.Model.pack
        (roundWithAccuracy .binary64 .positive (n * 2 ^ 53) (-53) .exact) := by
      rw [← ofScientific_eq (by omega)]
      show (Float.ofScientific n false 0).toModel = _
      rw [Float.ofScientific, dif_neg (by omega)]
      rfl
    have hlog : (n * 2 ^ 53).log2 = 52 + (j + 53) := by
      rw [log2_mul_two_pow (by omega), hj]
      omega
    have hdenotes : Denotes (roundWithAccuracy .binary64 .positive (n * 2 ^ 53) (-53) .exact) (roundedNat n) := by
      refine denotes_roundWithAccuracy hlog (by omega) ?_
      have hround : halfEven (n * 2 ^ 53) (2 ^ (j + 53)) = halfEven n (2 ^ j) := by
        rw [pow_add]
        exact halfEven_mul (Nat.two_pow_pos 53) n (2 ^ j)
      rw [hround, roundedNat, hj, Nat.add_sub_cancel_left,
        show (-53 + ((j + 53 : Nat) : Int) + 52).toNat = j + 52 by omega]
      push_cast
      rw [pow_add, Int.mul_assoc]
      rfl
    rw [hofNat]
    exact hdenotes.packed

/-- **The double of an integer is the nearest one.** -/
theorem denotes_ofInt {n : Int} (hn : n.natAbs < 2 ^ 64) : Denotes (Float.ofInt n).toModel.unpack (rounded n) := by
  cases n with
  | ofNat n => exact denotes_ofNat hn
  | negSucc n => exact (denotes_ofNat hn).neg.packed

end Stencil.Number
