import Gerber.Scalar.Float
import Mathlib

/-!
# Units of floating-point numbers

One and minus one are units of the rounded multiplication: the first leaves a number as it is, and
the second turns its sign.  A sum with zero keeps a number, but for the sign of zero.

The packing of floats (`pack_unpack` and the lemmas around it) is reached through no import that is
narrower than the whole of Mathlib.
-/

namespace Gerber

/-- Two scalars are the same number, of which zero has two signs, or both are none. -/
def Scalar.Same {α : Type} [Scalar α] (x y : α) : Prop :=
  x == y ∨ Scalar.isAbsent x ∧ Scalar.isAbsent y

theorem Scalar.Same.refl {α : Type} [Scalar α] (x : α) : Scalar.Same x x := by
  unfold Scalar.Same Scalar.isAbsent
  cases x == x <;> simp

namespace Decimal

open Float.Model Float.Model.UnpackedFloat

/-- The mantissa and the exponent of a number as it is kept: all places are used, or the exponent is
the least one. -/
structure Kept (m : Nat) (e : Int) : Prop where
  pos : 0 < m
  log2_le : m.log2 ≤ 52
  full : m.log2 = 52 ∧ -1074 ≤ e ∨ e = -1074

private theorem log2_two_pow_mul (k : Nat) {m : Nat} (h : 0 < m) :
    (2 ^ k * m).log2 = k + m.log2 := by
  have hlow := Nat.log2_self_le (Nat.ne_of_gt h)
  have hhigh : m < 2 ^ (m.log2 + 1) := Nat.lt_log2_self
  rw [Nat.log2_eq_iff (Nat.ne_of_gt (Nat.mul_pos (Nat.two_pow_pos k) h)), Nat.add_assoc,
    Nat.pow_add, Nat.pow_add]
  exact ⟨Nat.mul_le_mul_left _ hlow, Nat.mul_lt_mul_of_pos_left hhigh (Nat.two_pow_pos k)⟩

private theorem shift_exact (k m : Nat) :
    (⟨2 ^ k * m, false, false⟩ : ExtendedMantissa) >>> k = ⟨m, false, false⟩ := by
  induction k generalizing m with
  | zero => simp [HShiftRight.hShiftRight, Nat.repeat]
  | succ k ih =>
    change ((⟨2 ^ (k + 1) * m, false, false⟩ : ExtendedMantissa) >>> k).shiftRightOne = _
    rw [Nat.pow_succ, Nat.mul_assoc, ih]
    simp [ExtendedMantissa.shiftRightOne]

namespace Kept

variable {m : Nat} {e : Int}

private theorem target_eq (h : Kept m e) (k : Nat) :
    Format.binary64.targetExponent (totalExponent (2 ^ k * m) (e - k)) = e := by
  obtain ⟨hpos, hle, hfull⟩ := h
  simp only [Format.targetExponent, totalExponent, Format.mantissaBits, Format.minExponent,
    log2_two_pow_mul k hpos]
  omega

private theorem shiftToTargetExponent_eq (h : Kept m e) (k : Nat) :
    shiftToTargetExponent Format.binary64 (2 ^ k * m) (e - k) .exact =
      (⟨m, false, false⟩, e) := by
  have hamount : (e - (e - k)).toNat = k := by omega
  simp only [shiftToTargetExponent, shiftToExponent, h.target_eq, hamount,
    ExtendedMantissa.ofMantissaAndAccuracy, shift_exact]
  exact congrArg _ (by omega)

private theorem roundWithAccuracy_eq (h : Kept m e) (s : Sign) (k : Nat) :
    roundWithAccuracy Format.binary64 s (2 ^ k * m) (e - k) .exact = .finite s m e h.pos := by
  have hagain : shiftToTargetExponent Format.binary64 m e .exact = (⟨m, false, false⟩, e) := by
    simpa using h.shiftToTargetExponent_eq 0
  simp [roundWithAccuracy, h.shiftToTargetExponent_eq, ExtendedMantissa.roundedMantissa,
    ExtendedMantissa.accuracy, Accuracy.roundToNearestEven, hagain, Nat.ne_of_gt h.pos]

end Kept

/-- The first place of a number with all places used is not among its bits. -/
theorem toNat_one_append (v : BitVec 52) : (1#1 ++ v).toNat = 2 ^ 52 + v.toNat := by
  rw [BitVec.toNat_append, ← Nat.shiftLeft_add_eq_or_of_lt v.isLt]
  rfl

/-- Every finite number is kept. -/
theorem kept_of_unpack {v : Float.Model} {s : Sign} {m : Nat} {e : Int} {h : 0 < m}
    (hv : v.unpack = .finite s m e h) : Kept m e := by
  unfold Float.Model.unpack UnpackedFloat.unpack at hv
  dsimp only at hv
  have hmantissa : (@unpackMantissa Format.binary64 v.toBits.toBitVec).toNat < 2 ^ 52 :=
    BitVec.isLt _
  split at hv
  · split at hv <;> cases hv
  · split at hv
    · rename_i hzero
      split at hv
      · cases hv
      · cases hv
        refine ⟨h, Nat.le_of_lt ((Nat.log2_lt (Nat.ne_of_gt h)).mpr hmantissa), .inr ?_⟩
        rw [hzero]
        rfl
    · rename_i hzero
      cases hv
      have hexponent : (@unpackExponent Format.binary64 v.toBits.toBitVec).toNat ≠ 0 :=
        fun h => hzero (BitVec.eq_of_toNat_eq h)
      have hbias : (Format.binary64.exponentBias : Int) = 1023 := rfl
      have hsum := toNat_one_append (@unpackMantissa Format.binary64 v.toBits.toBitVec)
      have hlog : (1#1 ++ @unpackMantissa Format.binary64 v.toBits.toBitVec).toNat.log2 =
          52 := by
        rw [hsum, Nat.log2_eq_iff (by omega)]
        omega
      refine ⟨h, Nat.le_of_eq hlog, .inl ⟨hlog, ?_⟩⟩
      rw [hbias]
      omega

private theorem pack_unpack (v : Float.Model) : Float.Model.pack v.unpack = v := by
  have hbits := pack_unpack_of_valid v.valid
  obtain ⟨⟨bits⟩, hvalid⟩ := v
  simp only [Float.Model.pack, Float.Model.unpack, hbits]

private theorem mul_one_eq (s : Sign) (h : 0 < 2 ^ 52) (v : Float.Model) :
    UnpackedFloat.mul Format.binary64 (.finite s (2 ^ 52) (-52) h) v.unpack =
      match s with
      | .positive => v.unpack
      | .negative => v.unpack.neg := by
  cases hv : v.unpack with
  | notANumber => cases s <;> rfl
  | infinity t => cases s <;> cases t <;> rfl
  | zero t => cases s <;> cases t <;> rfl
  | finite t m e hm =>
    have hround := (kept_of_unpack hv).roundWithAccuracy_eq (s * t) 52
    have hexponent : e - (52 : Nat) = -52 + e := by omega
    rw [hexponent] at hround
    refine Eq.trans hround ?_
    cases s <;> cases t <;> rfl

private theorem unpack_one : (Scalar.one : Float).toModel.unpack =
    .finite .positive (2 ^ 52) (-52) (by decide) := by
  rfl

private theorem unpack_neg_one : (-Scalar.one : Float).toModel.unpack =
    .finite .negative (2 ^ 52) (-52) (by decide) := by
  rfl

theorem one_mul_eq (v : Float) : Scalar.one * v = v := by
  change Float.ofModel (Float.Model.pack
    (UnpackedFloat.mul Format.binary64 (Scalar.one : Float).toModel.unpack v.toModel.unpack)) = v
  rw [unpack_one, mul_one_eq]
  exact congrArg Float.ofModel (pack_unpack v.toModel)

theorem neg_one_mul_eq (v : Float) : -Scalar.one * v = -v := by
  change Float.ofModel (Float.Model.pack
    (UnpackedFloat.mul Format.binary64 (-Scalar.one : Float).toModel.unpack v.toModel.unpack)) = -v
  rw [unpack_neg_one, mul_one_eq]
  rfl

theorem same_zero_add (v : Float) : Scalar.Same v (Scalar.zero + v) := by
  have hv : v = Float.ofModel (Float.Model.pack v.toModel.unpack) :=
    congrArg Float.ofModel (pack_unpack v.toModel).symm
  change Scalar.Same v (Float.ofModel (Float.Model.pack
    (UnpackedFloat.add Format.binary64 (.zero .positive) v.toModel.unpack)))
  cases hu : v.toModel.unpack with
  | zero t =>
    rw [hv, hu]
    cases t <;> exact .inl (by decide)
  | _ =>
    rw [hu] at hv
    rw [hv]
    exact .refl _

theorem toNat_unpackMantissa (b : BitVec 64) :
    (@unpackMantissa Format.binary64 b).toNat = b.toNat % 2 ^ 52 := by
  rw [unpackMantissa_def]
  exact BitVec.extractLsb'_toNat 0 52 b

theorem toNat_unpackExponent (b : BitVec 64) :
    (@unpackExponent Format.binary64 b).toNat = b.toNat / 2 ^ 52 % 2 ^ 11 := by
  rw [unpackExponent_def, ← Nat.shiftRight_eq_div_pow]
  exact BitVec.extractLsb'_toNat 52 11 b

theorem toNat_unpackSign (b : BitVec 64) :
    (@unpackSign Format.binary64 b).toNat = b.toNat / 2 ^ 63 % 2 := by
  rw [unpackSign_def, ← Nat.shiftRight_eq_div_pow]
  exact BitVec.extractLsb'_toNat 63 1 b

private theorem unpack_flip {n : Nat} (h : n < 2 ^ 63) :
    UnpackedFloat.unpack Format.binary64 (BitVec.ofNat 64 (2 ^ 63 + n)) =
      (UnpackedFloat.unpack Format.binary64 (BitVec.ofNat 64 n)).neg := by
  have hmantissa : @unpackMantissa Format.binary64 (BitVec.ofNat 64 (2 ^ 63 + n)) =
      @unpackMantissa Format.binary64 (BitVec.ofNat 64 n) := by
    apply BitVec.eq_of_toNat_eq
    rw [toNat_unpackMantissa, toNat_unpackMantissa, BitVec.toNat_ofNat, BitVec.toNat_ofNat]
    omega
  have hexponent : @unpackExponent Format.binary64 (BitVec.ofNat 64 (2 ^ 63 + n)) =
      @unpackExponent Format.binary64 (BitVec.ofNat 64 n) := by
    apply BitVec.eq_of_toNat_eq
    rw [toNat_unpackExponent, toNat_unpackExponent, BitVec.toNat_ofNat, BitVec.toNat_ofNat]
    omega
  have hplus : @unpackSign Format.binary64 (BitVec.ofNat 64 n) = 0#1 := by
    apply BitVec.eq_of_toNat_eq
    rw [toNat_unpackSign, BitVec.toNat_ofNat, BitVec.toNat_ofNat]
    omega
  have hminus : @unpackSign Format.binary64 (BitVec.ofNat 64 (2 ^ 63 + n)) = 1#1 := by
    apply BitVec.eq_of_toNat_eq
    rw [toNat_unpackSign, BitVec.toNat_ofNat, BitVec.toNat_ofNat]
    omega
  simp only [UnpackedFloat.unpack, hmantissa, hexponent, hplus, hminus]
  split
  · split <;> rfl
  · split
    · split <;> rfl
    · rfl

private theorem magnitudeBits_le (num den : Nat) :
    Binary64.magnitudeBits num den ≤ Binary64.infinityBits := by
  unfold Binary64.magnitudeBits
  split
  · exact Nat.zero_le _
  · exact Nat.min_le_right _ _

private theorem unpack_ofBits {n : Nat} (h : n ≤ Binary64.infinityBits) :
    (Float.ofBits (UInt64.ofNat n)).toModel.unpack =
      UnpackedFloat.unpack Format.binary64 (BitVec.ofNat 64 n) := by
  have hbits : n ≤ 2047 * 2 ^ 52 := h
  have hnumber : @isNaNBits Format.binary64 (BitVec.ofNat 64 n) = false := by
    apply decide_eq_false
    rintro ⟨hexponent, hmantissa⟩
    apply hmantissa
    apply BitVec.eq_of_toNat_eq
    have hfull := congrArg BitVec.toNat hexponent
    rw [toNat_unpackExponent, BitVec.toNat_ofNat] at hfull
    change _ = 2047 at hfull
    rw [toNat_unpackMantissa, BitVec.toNat_ofNat]
    change _ = 0
    omega
  have hpack := @UnpackedFloat.pack_unpack Format.binary64 (BitVec.ofNat 64 n) (by decide)
  rw [hnumber, if_neg Bool.false_ne_true] at hpack
  change UnpackedFloat.unpack Format.binary64 (UnpackedFloat.pack Format.binary64
    (UnpackedFloat.unpack Format.binary64 (BitVec.ofNat 64 n))) = _
  rw [hpack]

private theorem ofBits_flip {n : Nat} (h : n ≤ Binary64.infinityBits) :
    Float.ofBits (UInt64.ofNat (2 ^ 63 + n)) = -Float.ofBits (UInt64.ofNat n) := by
  have hlt : n < 2 ^ 63 := Nat.lt_of_le_of_lt h (by decide)
  have hneg : -Float.ofBits (UInt64.ofNat n) = Float.ofModel (Float.Model.pack
      (Float.ofBits (UInt64.ofNat n)).toModel.unpack.neg) := rfl
  rw [hneg, unpack_ofBits h, ← unpack_flip hlt]
  rfl

private theorem nearest_true (num den : Nat) :
    Binary64.nearest true num den = -Binary64.nearest false num den := by
  simp only [Binary64.nearest, if_true, Bool.false_eq_true, if_false, Nat.pow_eq]
  exact ofBits_flip (magnitudeBits_le num den)

theorem toFloat_finite_true (digits : Nat) (exponent : Int) :
    Numeral.toFloat (.finite true digits exponent) =
      -Numeral.toFloat (.finite false digits exponent) := by
  simp only [Numeral.toFloat]
  split
  · exact nearest_true 0 1
  · split
    · decide
    · exact nearest_true _ _

end Decimal

end Gerber
