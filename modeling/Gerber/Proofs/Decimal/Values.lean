import Gerber.Proofs.Decimal.Units

/-!
# Exact values

Every finite floating-point number is a fraction.  Such numbers are ordered as their values are,
and a number equals a natural number if its value does.
-/

namespace Gerber.Decimal

open Float.Model Float.Model.UnpackedFloat

/-- The value of a finite number. -/
def Binary64.value? : Binary64 → Option ℚ
  | .finite negative mantissa exponent =>
    some (if negative then -(mantissa * 2 ^ exponent) else mantissa * 2 ^ exponent)
  | .infinite _ => none
  | .notANumber => none

/-- The exact value of a floating-point number, if it is finite. -/
def rational? (x : Float) : Option ℚ := (Binary64.ofFloat x).value?

private theorem scaleTwo_div (n : Nat) (e : Int) :
    ((scaleTwo n e).1 : ℚ) / (scaleTwo n e).2 = n * 2 ^ e := by
  unfold scaleTwo
  split
  next he =>
    obtain ⟨k, rfl⟩ := Int.eq_ofNat_of_zero_le he
    simp
  next he =>
    obtain ⟨k, hk⟩ := Int.eq_ofNat_of_zero_le (show 0 ≤ -e by omega)
    obtain rfl : e = -k := by omega
    simp [div_eq_mul_inv]

private theorem scaleTwo_pos (n : Nat) (e : Int) : 0 < (scaleTwo n e).2 := by
  unfold scaleTwo
  split
  · exact Nat.one_pos
  · exact Nat.two_pow_pos _

private theorem cast_div_eq_iff {a b n : Nat} (hb : 0 < b) :
    (a : ℚ) / b = n ↔ a % b = 0 ∧ a / b = n := by
  have hb' : (b : ℚ) ≠ 0 := by exact_mod_cast Nat.ne_of_gt hb
  rw [div_eq_iff hb']
  constructor
  · intro h
    obtain rfl : a = n * b := by exact_mod_cast h
    exact ⟨Nat.mul_mod_left n b, Nat.mul_div_cancel n hb⟩
  · rintro ⟨hmod, rfl⟩
    exact_mod_cast (Nat.div_mul_cancel (Nat.dvd_of_mod_eq_zero hmod)).symm

/-- A number equals a natural number if its value does. -/
theorem nat?_eq_some_iff {b : Binary64} {n : Nat} :
    b.nat? = some n ↔ b.value? = some (n : ℚ) := by
  cases b with
  | infinite negative => simp [Binary64.nat?, Binary64.value?]
  | notANumber => simp [Binary64.nat?, Binary64.value?]
  | finite negative m e =>
    have hquotient := @cast_div_eq_iff (scaleTwo m e).1 (scaleTwo m e).2 n (scaleTwo_pos m e)
    rw [scaleTwo_div] at hquotient
    have hpow : (0 : ℚ) < 2 ^ e := by positivity
    simp only [Binary64.nat?, Binary64.value?, Option.ite_none_right_eq_some, Option.some.injEq]
    cases negative with
    | false => simp [hquotient]
    | true =>
      -- A negative number equals a natural number only if both are zero.
      have hzero : -(m * 2 ^ e : ℚ) = n ↔ m = 0 ∧ (m * 2 ^ e : ℚ) = n := by
        constructor
        · intro h
          have hm : (0 : ℚ) ≤ m * 2 ^ e := by positivity
          have hn : (0 : ℚ) ≤ n := Nat.cast_nonneg n
          have hsum : (m * 2 ^ e : ℚ) = 0 := by linarith
          have hm' : m = 0 := by
            rcases mul_eq_zero.mp hsum with hm' | hpow'
            · exact_mod_cast hm'
            · exact absurd hpow' hpow.ne'
          exact ⟨hm', by linarith⟩
        · rintro ⟨rfl, h⟩
          simpa using h
      simp only [if_true, hzero, hquotient, Bool.true_eq_false, or_false]
      tauto

def isNegative : Sign → Bool
  | .negative => true
  | .positive => false

private theorem isNegative_unpackSign (b : BitVec 64) :
    isNegative (.ofBitVec (@unpackSign Format.binary64 b)) = decide (Nat.pow 2 63 ≤ b.toNat) := by
  have hlt : b.toNat < 2 ^ 64 := b.isLt
  have hsign := toNat_unpackSign b
  have hpow : Nat.pow 2 63 = 2 ^ 63 := rfl
  rw [Sign.ofBitVec, hpow]
  split
  next hzero =>
    rw [hzero] at hsign
    change 0 = _ at hsign
    have hlow : ¬ 2 ^ 63 ≤ b.toNat := by omega
    exact (decide_eq_false hlow).symm
  next hone =>
    have hne : (@unpackSign Format.binary64 b).toNat ≠ 0 :=
      fun h => hone (BitVec.eq_of_toNat_eq h)
    have hhigh : 2 ^ 63 ≤ b.toNat := by omega
    exact (decide_eq_true hhigh).symm

private theorem ofFloat_eq (x : Float) :
    Binary64.ofFloat x =
      match x.toModel.unpack with
      | .finite s m e _ => .finite (isNegative s) m e
      | .zero s => .finite (isNegative s) 0 (-1074)
      | .infinity s => .infinite (isNegative s)
      | .notANumber => .notANumber := by
  have hbits : x.toBits.toBitVec = x.toModel.toBits.toBitVec := rfl
  have hbias : (Format.binary64.exponentBias : Int) + (52 : Nat) = 1075 := rfl
  have hmantissa : (@unpackMantissa Format.binary64 x.toBits.toBitVec).toNat =
      x.toBits.toNat % 2 ^ 52 := toNat_unpackMantissa _
  have hexponent : (@unpackExponent Format.binary64 x.toBits.toBitVec).toNat =
      x.toBits.toNat / 2 ^ 52 % 2 ^ 11 := toNat_unpackExponent _
  have hsign : isNegative (.ofBitVec (@unpackSign Format.binary64 x.toBits.toBitVec)) =
      decide (2 ^ 63 ≤ x.toBits.toNat) := isNegative_unpackSign _
  have hfull : @unpackExponent Format.binary64 x.toBits.toBitVec = -1#11 ↔
      x.toBits.toNat / 2 ^ 52 % 2 ^ 11 = 2047 := by
    rw [← BitVec.toNat_inj, hexponent]
    rfl
  have hnone : @unpackExponent Format.binary64 x.toBits.toBitVec = 0#11 ↔
      x.toBits.toNat / 2 ^ 52 % 2 ^ 11 = 0 := by
    rw [← BitVec.toNat_inj, hexponent]
    rfl
  have hfraction : @unpackMantissa Format.binary64 x.toBits.toBitVec = 0#52 ↔
      x.toBits.toNat % 2 ^ 52 = 0 := by
    rw [← BitVec.toNat_inj, hmantissa]
    rfl
  unfold Float.Model.unpack UnpackedFloat.unpack Binary64.ofFloat
  rw [← hbits]
  dsimp only
  simp only [hfull, hnone, hfraction, Nat.pow_eq]
  by_cases hlast : x.toBits.toNat / 2 ^ 52 % 2 ^ 11 = 2047
  · by_cases hzero : x.toBits.toNat % 2 ^ 52 = 0
    · simp only [if_pos hlast, if_pos hzero]
      exact congrArg Binary64.infinite hsign.symm
    · simp only [if_pos hlast, if_neg hzero]
  · by_cases hfirst : x.toBits.toNat / 2 ^ 52 % 2 ^ 11 = 0
    · by_cases hzero : x.toBits.toNat % 2 ^ 52 = 0
      · simp only [if_neg hlast, if_pos hfirst, hzero]
        exact congrArg (Binary64.finite · 0 _) hsign.symm
      · simp only [if_neg hlast, if_pos hfirst, dif_neg hzero, hsign, hmantissa, hexponent,
          hbias]
        rw [hfirst]
        rfl
    · simp only [if_neg hlast, if_neg hfirst, toNat_one_append, hsign, hmantissa, hexponent,
        hbias]

namespace Kept

variable {m m' : Nat} {e e' : Int}

private theorem lt_of_exponent_lt (h : Kept m e) (h' : Kept m' e') (he : e < e') :
    (m * 2 ^ e : ℚ) < m' * 2 ^ e' := by
  have hm : m < 2 ^ 53 := by
    have := h.log2_le
    exact (Nat.log2_lt (Nat.ne_of_gt h.pos)).mp (by omega)
  have hleast : -1074 ≤ e := by
    have := h.full
    omega
  have hm' : 2 ^ 52 ≤ m' := by
    have hfull : m'.log2 = 52 := by
      have := h'.full
      omega
    rw [← hfull]
    exact Nat.log2_self_le (Nat.ne_of_gt h'.pos)
  calc (m * 2 ^ e : ℚ)
      < 2 ^ 53 * 2 ^ e := by
        gcongr
        exact_mod_cast hm
    _ = 2 ^ 52 * 2 ^ (e + 1) := by
        rw [zpow_add₀ (by norm_num)]
        ring
    _ ≤ 2 ^ 52 * 2 ^ e' := by
        gcongr
        · norm_num
        · omega
    _ ≤ m' * 2 ^ e' := by
        gcongr
        exact_mod_cast hm'

private theorem compare_eq (h : Kept m e) (h' : Kept m' e') :
    compare (m * 2 ^ e : ℚ) (m' * 2 ^ e') = (compare e e').then (compare m m') := by
  rcases lt_trichotomy e e' with he | rfl | he
  · rw [compare_lt_iff_lt.mpr he, compare_lt_iff_lt.mpr (h.lt_of_exponent_lt h' he)]
    rfl
  · have hpow : (0 : ℚ) < 2 ^ e := by positivity
    rw [compare_eq_iff_eq.mpr rfl, Ordering.eq_then]
    rcases lt_trichotomy m m' with hm | rfl | hm
    · rw [compare_lt_iff_lt.mpr hm, compare_lt_iff_lt]
      exact mul_lt_mul_of_pos_right (Nat.cast_lt.mpr hm) hpow
    · rw [compare_eq_iff_eq.mpr rfl, compare_eq_iff_eq.mpr rfl]
    · rw [compare_gt_iff_gt.mpr hm, compare_gt_iff_gt]
      exact mul_lt_mul_of_pos_right (Nat.cast_lt.mpr hm) hpow
  · rw [compare_gt_iff_gt.mpr he, compare_gt_iff_gt.mpr (h'.lt_of_exponent_lt h he)]
    rfl

end Kept

/-- What a number with a value is made of. -/
inductive HasParts : UnpackedFloat → ℚ → Prop
  | zero (s : Sign) : HasParts (.zero s) 0
  | positive {m : Nat} {e : Int} (hm : 0 < m) (h : Kept m e) :
    HasParts (.finite .positive m e hm) (m * 2 ^ e)
  | negative {m : Nat} {e : Int} (hm : 0 < m) (h : Kept m e) :
    HasParts (.finite .negative m e hm) (-(m * 2 ^ e))

private theorem hasParts_of_rational? {x : Float} {p : ℚ} (hx : rational? x = some p) :
    HasParts x.toModel.unpack p := by
  rw [rational?, ofFloat_eq] at hx
  cases hu : x.toModel.unpack with
  | notANumber =>
    rw [hu] at hx
    cases hx
  | infinity s =>
    rw [hu] at hx
    cases hx
  | zero s =>
    rw [hu] at hx
    obtain rfl : 0 = p := by simpa [Binary64.value?] using hx
    exact .zero s
  | finite s m e hm =>
    rw [hu] at hx
    cases s with
    | positive =>
      cases hx
      exact .positive hm (kept_of_unpack hu)
    | negative =>
      cases hx
      exact .negative hm (kept_of_unpack hu)

private theorem compare_neg_neg (p q : ℚ) : compare (-p) (-q) = (compare p q).swap := by
  rcases lt_trichotomy p q with h | rfl | h
  · rw [compare_lt_iff_lt.mpr h, compare_gt_iff_gt.mpr (neg_lt_neg h)]
    rfl
  · rw [compare_eq_iff_eq.mpr rfl, compare_eq_iff_eq.mpr rfl]
    rfl
  · rw [compare_gt_iff_gt.mpr h, compare_lt_iff_lt.mpr (neg_lt_neg h)]
    rfl

private theorem HasParts.compare_eq {u v : UnpackedFloat} {p q : ℚ} (hu : HasParts u p)
    (hv : HasParts v q) : u.compare v = some (compare p q) := by
  have hpos {m : Nat} (hm : 0 < m) (e : Int) : (0 : ℚ) < m * 2 ^ e := by positivity
  cases hu with
  | zero s =>
    cases hv with
    | zero t => rw [compare_eq_iff_eq.mpr rfl]; rfl
    | positive hm' h' => rw [compare_lt_iff_lt.mpr (hpos hm' _)]; rfl
    | negative hm' h' => rw [compare_gt_iff_gt.mpr (neg_lt_zero.mpr (hpos hm' _))]; rfl
  | positive hm h =>
    cases hv with
    | zero t => rw [compare_gt_iff_gt.mpr (hpos hm _)]; rfl
    | positive hm' h' => rw [h.compare_eq h']; rfl
    | negative hm' h' =>
      rw [compare_gt_iff_gt.mpr ((neg_lt_zero.mpr (hpos hm' _)).trans (hpos hm _))]; rfl
  | negative hm h =>
    cases hv with
    | zero t => rw [compare_lt_iff_lt.mpr (neg_lt_zero.mpr (hpos hm _))]; rfl
    | positive hm' h' =>
      rw [compare_lt_iff_lt.mpr ((neg_lt_zero.mpr (hpos hm _)).trans (hpos hm' _))]; rfl
    | negative hm' h' => rw [compare_neg_neg, h.compare_eq h']; rfl

section

variable {x y : Float} {p q : ℚ}

private theorem lt_iff_rational (hx : rational? x = some p) (hy : rational? y = some q) :
    x < y ↔ p < q := by
  have hcompare := (hasParts_of_rational? hx).compare_eq (hasParts_of_rational? hy)
  have hlt : x < y ↔ (x.toModel.unpack.compare y.toModel.unpack == some .lt) = true :=
    decide_eq_true_iff
  rw [hlt, hcompare, beq_iff_eq, Option.some.injEq, compare_lt_iff_lt]

private theorem le_iff_rational (hx : rational? x = some p) (hy : rational? y = some q) :
    x ≤ y ↔ p ≤ q := by
  have hcompare := (hasParts_of_rational? hx).compare_eq (hasParts_of_rational? hy)
  have hle : x ≤ y ↔ (x.toModel.unpack.compare y.toModel.unpack).any Ordering.isLE = true :=
    decide_eq_true_iff
  rw [hle, hcompare, Option.any_some, Ordering.isLE_iff_ne_gt, compare_gt_iff_gt, not_lt]

private theorem beq_iff_rational (hx : rational? x = some p) (hy : rational? y = some q) :
    x == y ↔ p = q := by
  have hcompare := (hasParts_of_rational? hx).compare_eq (hasParts_of_rational? hy)
  change (x.toModel.unpack.compare y.toModel.unpack == some .eq) = true ↔ _
  rw [hcompare, beq_iff_eq, Option.some.injEq, compare_eq_iff_eq]

end

private theorem exists_rational?_of_isFinite {x : Float} (h : x.isFinite = true) :
    ∃ p, rational? x = some p := by
  change x.toModel.unpack.isFinite = true at h
  rw [rational?, ofFloat_eq]
  cases hu : x.toModel.unpack with
  | notANumber =>
    rw [hu] at h
    cases h
  | infinity s =>
    rw [hu] at h
    cases h
  | zero s => exact ⟨_, rfl⟩
  | finite s m e hm => exact ⟨_, rfl⟩

section

variable {x y z : Float}

theorem le_of_not_lt_of_isFinite (hx : x.isFinite = true) (hy : y.isFinite = true)
    (h : ¬ x < y) : y ≤ x := by
  obtain ⟨p, hp⟩ := exists_rational?_of_isFinite hx
  obtain ⟨q, hq⟩ := exists_rational?_of_isFinite hy
  rw [lt_iff_rational hp hq] at h
  exact (le_iff_rational hq hp).mpr (not_lt.mp h)

theorem le_of_lt_of_isFinite (hx : x.isFinite = true) (hy : y.isFinite = true)
    (h : x < y) : x ≤ y := by
  obtain ⟨p, hp⟩ := exists_rational?_of_isFinite hx
  obtain ⟨q, hq⟩ := exists_rational?_of_isFinite hy
  rw [lt_iff_rational hp hq] at h
  exact (le_iff_rational hp hq).mpr h.le

theorem le_trans_of_isFinite (hx : x.isFinite = true) (hy : y.isFinite = true)
    (hz : z.isFinite = true) (hxy : x ≤ y) (hyz : y ≤ z) : x ≤ z := by
  obtain ⟨p, hp⟩ := exists_rational?_of_isFinite hx
  obtain ⟨q, hq⟩ := exists_rational?_of_isFinite hy
  obtain ⟨r, hr⟩ := exists_rational?_of_isFinite hz
  rw [le_iff_rational hp hq] at hxy
  rw [le_iff_rational hq hr] at hyz
  exact (le_iff_rational hp hr).mpr (hxy.trans hyz)

theorem le_refl_of_isFinite (hx : x.isFinite = true) : x ≤ x := by
  obtain ⟨p, hp⟩ := exists_rational?_of_isFinite hx
  exact (le_iff_rational hp hp).mpr le_rfl

theorem beq_of_le_of_le (hx : x.isFinite = true) (hy : y.isFinite = true) (hxy : x ≤ y)
    (hyx : y ≤ x) : (x == y) = true := by
  obtain ⟨p, hp⟩ := exists_rational?_of_isFinite hx
  obtain ⟨q, hq⟩ := exists_rational?_of_isFinite hy
  rw [le_iff_rational hp hq] at hxy
  rw [le_iff_rational hq hp] at hyx
  exact (beq_iff_rational hp hq).mpr (le_antisymm hxy hyx)

theorem isAbsent_of_isFinite (hx : x.isFinite = true) : Scalar.isAbsent x = false := by
  have heq : (x == x) = true := beq_of_le_of_le hx hx (le_refl_of_isFinite hx)
    (le_refl_of_isFinite hx)
  simp [Scalar.isAbsent, heq]

end

end Gerber.Decimal
