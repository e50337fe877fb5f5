import Gerber.Proofs.Decimal.Nearest
import Gerber.Proofs.Format.Header
import Gerber.Proofs.Text.Digits

/-!
# Reading numerals back

Numerals with an implicit decimal point are decoded to exact lengths.  A numeral that is decoded and
encoded again comes back in its canonical spelling, and a length that is encoded and decoded again
comes back to within half of the last place.
-/

namespace Gerber.Format

open Decimal

/-- What stands in front of the digits of a numeral. -/
inductive Sign where
  | absent
  | plus
  | minus
deriving DecidableEq

namespace Sign

def text : Sign → Text
  | absent => []
  | plus => ['+']
  | minus => ['-']

def integer (sign : Sign) (digits : Text) : ℤ :=
  if sign = minus then -Text.digitsValue digits else Text.digitsValue digits

/-- The spelling without a plus sign, without leading zeros, and without a sign of zero. -/
def canonical (sign : Sign) (digits : Text) : Text :=
  if sign = minus ∧ Text.withoutZeros digits ≠ ['0'] then '-' :: Text.withoutZeros digits
  else Text.withoutZeros digits

end Sign

/-- A numeral consists of a sign or none and of digits, for which the format has places. -/
structure Written (format : Format) (numeral : Text) (sign : Sign) (digits : Text) : Prop where
  numeral_eq : numeral = sign.text ++ digits
  isDigit : ∀ c ∈ digits, c.isDigit = true
  length_pos : 1 ≤ digits.length
  length_le : digits.length ≤ format.integerDigits + format.decimalDigits

variable {α : Type} [Scalar α] {format : Format} {numeral digits : Text} {sign : Sign}

theorem Written.isDigits (h : Written format numeral sign digits) : digits.isDigits = true := by
  have hne : digits ≠ [] := List.length_pos_iff.mp h.length_pos
  simp only [Text.isDigits, Bool.and_eq_true, List.all_eq_true, Bool.not_eq_true',
    List.isEmpty_eq_false_iff]
  exact ⟨hne, h.isDigit⟩

private theorem signed_text (sign : Sign) (h : ∀ c ∈ digits, c.isDigit = true) :
    signed (sign.text ++ digits) = (decide (sign = .minus), digits) := by
  cases sign with
  | plus => rfl
  | minus => rfl
  | absent =>
    cases digits with
    | nil => rfl
    | cons c rest =>
      have hc := h c List.mem_cons_self
      unfold signed
      split
      case h_1 hminus =>
        cases hminus
        cases hc
      case h_2 hplus =>
        cases hplus
        cases hc
      case h_3 => rfl

private theorem exists_sign (numeral : Text) :
    ∃ sign : Sign, numeral = sign.text ++ (signed numeral).2 := by
  unfold signed
  split
  · exact ⟨.minus, rfl⟩
  · exact ⟨.plus, rfl⟩
  · exact ⟨.absent, rfl⟩

private theorem exists_written {value : α} (h : format.decode numeral = .ok value) :
    ∃ sign digits, Written format numeral sign digits := by
  obtain ⟨sign, hsign⟩ := exists_sign numeral
  refine ⟨sign, (signed numeral).2, ?_⟩
  unfold decode at h
  dsimp only at h
  split at h
  next => cases h
  next hdigits =>
    split at h
    next => cases h
    next hwidth =>
      simp only [Text.isDigits, Bool.not_eq_true', Bool.not_eq_false, Bool.and_eq_true,
        List.all_eq_true, List.isEmpty_eq_false_iff] at hdigits
      exact ⟨hsign, hdigits.2, List.length_pos_iff.mpr hdigits.1, Nat.le_of_not_lt hwidth⟩

private theorem decode_of_written (hrange : format.InRange)
    (h : Written format numeral sign digits) : format.decode numeral = .ok
      (let magnitude : α :=
        Scalar.ofNat (Text.digitsValue digits / 10 ^ format.decimalDigits) +
          Scalar.ofNat (Text.digitsValue digits % 10 ^ format.decimalDigits) /
            Scalar.pow10 format.decimalDigits
      (if sign = .minus then -magnitude else magnitude) * format.units.scale) := by
  obtain ⟨hinteger, hlow, hhigh⟩ := hrange
  have hvalue : Text.digitsValue digits < 10 ^ 13 :=
    calc Text.digitsValue digits
        < 10 ^ digits.length :=
          Text.digitsValue_lt h.isDigit (List.length_pos_iff.mp h.length_pos)
      _ ≤ 10 ^ 13 := Nat.pow_le_pow_right (by decide) (by have := h.length_le; omega)
  have hwhole : Text.digitsValue digits / 10 ^ format.decimalDigits < partLimit :=
    calc Text.digitsValue digits / 10 ^ format.decimalDigits
        ≤ Text.digitsValue digits := Nat.div_le_self _ _
      _ < 10 ^ 13 := hvalue
      _ < partLimit := by decide
  have hpart : Text.digitsValue digits % 10 ^ format.decimalDigits < partLimit :=
    calc Text.digitsValue digits % 10 ^ format.decimalDigits
        ≤ Text.digitsValue digits := Nat.mod_le _ _
      _ < 10 ^ 13 := hvalue
      _ < partLimit := by decide
  have hplaces : ¬ (format.decimalDigits = 0 ∨
      partLimit ≤ Text.digitsValue digits / 10 ^ format.decimalDigits ∨
      partLimit ≤ Text.digitsValue digits % 10 ^ format.decimalDigits) := by
    omega
  have hwidth : ¬ format.width < digits.length := Nat.not_lt.mpr h.length_le
  unfold decode
  rw [h.numeral_eq, signed_text sign h.isDigit]
  simp only [h.isDigits, Bool.not_true, Bool.false_eq_true, if_false, if_neg hwidth, Nat.pow_eq,
    if_neg hplaces, decide_eq_true_eq]

private theorem ofNat_eq_zero_iff {n : Nat} : Text.ofNat n = ['0'] ↔ n = 0 := by
  constructor
  · intro h
    rw [← Text.digitsValue_ofNat n, h]
    rfl
  · rintro rfl
    rfl

private theorem ofInt_integer (h : Written format numeral sign digits) :
    Text.ofInt (sign.integer digits) = sign.canonical digits := by
  have hdigits := Text.ofNat_digitsValue h.isDigit
  rw [Sign.canonical, ← hdigits, Sign.integer, Text.ofInt]
  by_cases hsign : sign = .minus
  · by_cases hzero : Text.digitsValue digits = 0
    · simp [hsign, hzero, ofNat_eq_zero_iff]
    · simp [hsign, hzero, ofNat_eq_zero_iff]
  · have hnonneg : ¬ (Text.digitsValue digits : ℤ) < 0 := by omega
    simp [hsign, hnonneg]

private theorem written_ofInt (hrange : format.InRange) {n : ℤ}
    (hn : n.natAbs < 10 ^ format.width) :
    ∃ sign : Sign, Written format (Text.ofInt n) sign (Text.ofNat n.natAbs) ∧
      sign.integer (Text.ofNat n.natAbs) = n := by
  have hwidth : 0 < format.width := by
    have hlow := hrange.le_decimal
    unfold width
    omega
  have hlength := (Text.length_ofNat_le_iff hwidth).mpr hn
  have hpos : 1 ≤ (Text.ofNat n.natAbs).length := List.length_pos_iff.mpr Nat.toDigits_ne_nil
  by_cases hneg : n < 0
  · refine ⟨.minus, ⟨if_pos hneg, fun c => Text.isDigit_of_mem_ofNat, hpos, hlength⟩, ?_⟩
    rw [Sign.integer, if_pos rfl, Text.digitsValue_ofNat]
    omega
  · refine ⟨.absent, ⟨if_neg hneg, fun c => Text.isDigit_of_mem_ofNat, hpos, hlength⟩, ?_⟩
    rw [Sign.integer, if_neg (by decide), Text.digitsValue_ofNat]
    omega

private theorem scale_pos (units : Units) : (0 : ℚ) < units.scale := by
  cases units with
  | millimeters => exact zero_lt_one.trans_eq Nat.cast_one.symm
  | inches =>
    rw [Units.scale_inches, inch_rat]
    norm_num

private theorem decode_rat (hrange : format.InRange) (h : Written format numeral sign digits) :
    format.decode numeral = .ok
      ((sign.integer digits : ℚ) / 10 ^ format.decimalDigits * format.units.scale) := by
  have hsplit : (Text.digitsValue digits : ℚ) =
      10 ^ format.decimalDigits * (Text.digitsValue digits / 10 ^ format.decimalDigits : ℕ) +
        (Text.digitsValue digits % 10 ^ format.decimalDigits : ℕ) := by
    exact_mod_cast (Nat.div_add_mod _ _).symm
  have hmagnitude : (Scalar.ofNat (Text.digitsValue digits / 10 ^ format.decimalDigits) +
      Scalar.ofNat (Text.digitsValue digits % 10 ^ format.decimalDigits) /
        Scalar.pow10 format.decimalDigits : ℚ) =
      (Text.digitsValue digits : ℚ) / 10 ^ format.decimalDigits := by
    rw [hsplit, add_div, mul_div_cancel_left₀ _ (by positivity)]
    rfl
  rw [decode_of_written hrange h, hmagnitude]
  by_cases hsign : sign = .minus
  · simp [hsign, Sign.integer, neg_div]
  · simp [hsign, Sign.integer]

def inLastPlaces (format : Format) (v : ℚ) : ℚ :=
  v / format.units.scale * 10 ^ format.decimalDigits

private theorem encode_rat (hrange : format.InRange) (v : ℚ) :
    format.encode v =
      if 10 ^ format.width ≤ (nearestInt (format.inLastPlaces v)).natAbs then
        .error (.coordinate
          (.doesNotFit (Scalar.shown v) format.integerDigits format.decimalDigits))
      else .ok (Text.ofInt (nearestInt (format.inLastPlaces v))) := by
  obtain ⟨hinteger, hlow, hhigh⟩ := hrange
  have hwidth : 0 < format.width := by
    unfold width
    omega
  have hlimit : 10 ^ format.width < 2 ^ 63 :=
    calc 10 ^ format.width
        ≤ 10 ^ 13 := Nat.pow_le_pow_right (by decide) (by unfold width; omega)
      _ < 2 ^ 63 := by decide
  have hfits : format.width <
      (Text.ofNat (Scalar.nearest (format.inLastPlaces v)).natAbs).length ↔
      10 ^ format.width ≤ (nearestInt (format.inLastPlaces v)).natAbs := by
    rw [← Nat.not_le, Text.length_ofNat_le_iff hwidth, natAbs_nearest_lt_iff hlimit, Nat.not_lt]
  change (if format.width <
    (Text.ofNat (Scalar.nearest (format.inLastPlaces v)).natAbs).length then _ else _) = _
  by_cases hmany : 10 ^ format.width ≤ (nearestInt (format.inLastPlaces v)).natAbs
  · rw [if_pos (hfits.mpr hmany), if_pos hmany]
  · have hsmall : (nearestInt (format.inLastPlaces v)).natAbs < 2 ^ 63 :=
      Nat.lt_trans (Nat.not_le.mp hmany) hlimit
    rw [if_neg (mt hfits.mp hmany), if_neg hmany]
    exact congrArg (fun n => Except.ok (Text.ofInt n)) (nearest_of_lt hsmall)

private theorem encode_of_integer (hrange : format.InRange)
    (h : Written format numeral sign digits) : format.encode
        ((sign.integer digits : ℚ) / 10 ^ format.decimalDigits * format.units.scale) =
      .ok (sign.canonical digits) := by
  have hscale := (scale_pos format.units).ne'
  have hplaces : format.inLastPlaces
      ((sign.integer digits : ℚ) / 10 ^ format.decimalDigits * format.units.scale) =
      (sign.integer digits : ℚ) := by
    unfold inLastPlaces
    field_simp
  have hsmall : (sign.integer digits).natAbs < 10 ^ format.width :=
    calc (sign.integer digits).natAbs
        = Text.digitsValue digits := by
          unfold Sign.integer
          split <;> omega
      _ < 10 ^ digits.length :=
          Text.digitsValue_lt h.isDigit (List.length_pos_iff.mp h.length_pos)
      _ ≤ 10 ^ format.width := Nat.pow_le_pow_right (by decide) h.length_le
  rw [encode_rat hrange, hplaces, nearestInt_intCast, if_neg (Nat.not_le.mpr hsmall),
    ofInt_integer h]

/-- What is encoded is decoded to the multiple of the last place that it was rounded to. -/
private theorem decode_of_encode (hrange : format.InRange) {v : ℚ}
    (h : format.encode v = .ok numeral) :
    ∃ x : ℚ, format.decode numeral = .ok x ∧
      |x - v| ≤ format.units.scale / 10 ^ format.decimalDigits / 2 := by
  rw [encode_rat hrange] at h
  split at h
  next => cases h
  next hmany =>
    cases h
    obtain ⟨sign, hwritten, hinteger⟩ := written_ofInt hrange (Nat.not_le.mp hmany)
    refine ⟨_, decode_rat hrange hwritten, ?_⟩
    rw [hinteger]
    have hscale := scale_pos format.units
    have hpow : (0 : ℚ) < 10 ^ format.decimalDigits := by positivity
    have hv : v = format.inLastPlaces v * (format.units.scale / 10 ^ format.decimalDigits) := by
      unfold inLastPlaces
      field_simp
    have hdiff : (nearestInt (format.inLastPlaces v) : ℚ) / 10 ^ format.decimalDigits *
          format.units.scale - v =
        -(format.inLastPlaces v - nearestInt (format.inLastPlaces v)) *
          (format.units.scale / 10 ^ format.decimalDigits) := by
      nth_rewrite 2 [hv]
      ring
    rw [hdiff, abs_mul, abs_neg, abs_of_pos (div_pos hscale hpow)]
    calc |format.inLastPlaces v - nearestInt (format.inLastPlaces v)| *
          (format.units.scale / 10 ^ format.decimalDigits)
        ≤ 1 / 2 * (format.units.scale / 10 ^ format.decimalDigits) :=
          mul_le_mul_of_nonneg_right (abs_sub_nearestInt_le _) (div_pos hscale hpow).le
      _ = format.units.scale / 10 ^ format.decimalDigits / 2 := by ring

private theorem decode_zeros (hrange : format.InRange) {k : Nat}
    (h : Written format numeral sign (List.replicate k '0' ++ digits)) (hne : digits ≠ []) :
    (format.decode numeral : Except Fault α) = format.decode (sign.text ++ digits) := by
  have hlength := h.length_le
  rw [List.length_append] at hlength
  have hshort : Written format (sign.text ++ digits) sign digits :=
    { numeral_eq := rfl
      isDigit := fun c hc => h.isDigit c (List.mem_append_right _ hc)
      length_pos := List.length_pos_iff.mpr hne
      length_le := by omega }
  rw [decode_of_written hrange h, decode_of_written hrange hshort,
    Text.digitsValue_replicate_zero]

/-- How decoding and encoding of exact lengths fit together.  Numerals are decoded to the integer
that they write, counted in last places, however many zeros lead it; a numeral comes back in its
canonical spelling.  A length cannot be encoded if and only if it rounds to an integer with too many
digits, and otherwise it comes back to within half of the last place. -/
structure RoundTrips (format : Format) : Prop where
  decode_eq_ok_iff : ∀ (numeral : Text) (x : ℚ), format.decode numeral = .ok x ↔
    ∃ sign digits, Written format numeral sign digits ∧
      x = sign.integer digits / 10 ^ format.decimalDigits * format.units.scale
  decode_zeros : ∀ (sign : Sign) (digits : Text) (k : Nat), digits ≠ [] →
    Written format (sign.text ++ (List.replicate k '0' ++ digits)) sign
      (List.replicate k '0' ++ digits) →
    (format.decode (sign.text ++ (List.replicate k '0' ++ digits)) : Except Fault ℚ) =
      format.decode (sign.text ++ digits)
  encode_decode : ∀ numeral sign digits, Written format numeral sign digits →
    ∃ x : ℚ, format.decode numeral = .ok x ∧ format.encode x = .ok (sign.canonical digits)
  encode_eq_error_iff : ∀ v : ℚ, (∃ fault, format.encode v = .error fault) ↔
    10 ^ (format.integerDigits + format.decimalDigits) ≤
      round |v / format.units.scale * 10 ^ format.decimalDigits|
  decode_encode : ∀ (v : ℚ) (numeral : Text), format.encode v = .ok numeral →
    ∃ x : ℚ, format.decode numeral = .ok x ∧
      |x - v| ≤ format.units.scale / 10 ^ format.decimalDigits / 2

private theorem exists_error_encode_iff (hrange : format.InRange) (v : ℚ) :
    (∃ fault, format.encode v = .error fault) ↔
      10 ^ format.width ≤ (nearestInt (format.inLastPlaces v)).natAbs := by
  rw [encode_rat hrange]
  by_cases hmany : 10 ^ format.width ≤ (nearestInt (format.inLastPlaces v)).natAbs
  · simp [hmany]
  · simp [hmany]

theorem roundTrips_of_ofCommands {fs mo : Text} (h : ofCommands fs mo = .ok format) :
    RoundTrips format := by
  have hrange := (declared_of_ofCommands h).inRange
  refine ⟨?_, ?_, ?_, ?_, ?_⟩
  · intro numeral x
    constructor
    · intro hx
      obtain ⟨sign, digits, hwritten⟩ := exists_written hx
      rw [decode_rat hrange hwritten] at hx
      exact ⟨sign, digits, hwritten, (Except.ok.inj hx).symm⟩
    · rintro ⟨sign, digits, hwritten, rfl⟩
      exact decode_rat hrange hwritten
  · intro sign digits k hne hwritten
    exact decode_zeros hrange hwritten hne
  · intro numeral sign digits hwritten
    exact ⟨_, decode_rat hrange hwritten, encode_of_integer hrange hwritten⟩
  · intro v
    rw [exists_error_encode_iff hrange, ← Int.ofNat_le, natAbs_nearestInt]
    push_cast
    rfl
  · intro v numeral hnumeral
    exact decode_of_encode hrange hnumeral

theorem roundTrips_of_ofCommands_inches :
    ofCommands "%FSLAX24Y24*%".toList "%MOIN*%".toList = .ok ⟨.inches, 2, 4⟩ ∧
      RoundTrips ⟨.inches, 2, 4⟩ ∧
      decode ⟨.inches, 2, 4⟩ "-010000".toList = .ok (-254 / 10 : ℚ) ∧
      encode ⟨.inches, 2, 4⟩ (-254 / 10 : ℚ) = .ok "-10000".toList := by
  have hcommands : ofCommands "%FSLAX24Y24*%".toList "%MOIN*%".toList = .ok ⟨.inches, 2, 4⟩ := rfl
  have htrips := roundTrips_of_ofCommands hcommands
  have hwritten : Written ⟨.inches, 2, 4⟩ "-010000".toList .minus "010000".toList :=
    ⟨rfl, List.all_eq_true.mp (by decide), by decide, by decide⟩
  have hdecode : decode ⟨.inches, 2, 4⟩ "-010000".toList = .ok (-254 / 10 : ℚ) :=
    (htrips.decode_eq_ok_iff _ _).mpr ⟨.minus, _, hwritten, by decide +kernel⟩
  obtain ⟨x, hx, hencode⟩ := htrips.encode_decode _ _ _ hwritten
  rw [hdecode] at hx
  cases hx
  exact ⟨hcommands, htrips, hdecode, hencode⟩

end Gerber.Format
