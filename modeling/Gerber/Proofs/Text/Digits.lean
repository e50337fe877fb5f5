import Gerber.Text.Digits
import Mathlib.Algebra.Group.Nat.Defs
import Mathlib.Data.List.Basic

/-!
# Digits of numbers

Leading zeros do not count for the number that digits write, and without them the digits are those
of the number.
-/

namespace Gerber.Text

/-- The digits without the zeros that lead them, or one zero if there are no others. -/
def withoutZeros (t : Text) : Text :=
  match t.dropWhile (· == '0') with
  | [] => ['0']
  | c :: rest => c :: rest

private theorem digitsFrom_eq (start : Nat) (t : Text) : digitsFrom start t =
    Nat.ofDigitChars 10 t start :=
  rfl

theorem isDigits_iff {t : Text} : t.isDigits = true ↔ t ≠ [] ∧ ∀ c ∈ t, c.isDigit = true := by
  simp [isDigits, List.all_eq_true]

private theorem after?_plus_of_isDigits {t : Text} (h : ∀ c ∈ t, c.isDigit = true) :
    t.after? ['+'] = none := by
  cases t with
  | nil => rfl
  | cons c t =>
    have hplus : c ≠ '+' := by
      rintro rfl
      exact absurd (h _ List.mem_cons_self) (by decide)
    simp [after?, List.isPrefixOf?, hplus.symm]

theorem natural?_of_isDigits {limit : Nat} {t : Text} (h : t.isDigits = true) :
    t.natural? limit = if t.digitsValue < limit then some t.digitsValue else none := by
  simp [natural?, after?_plus_of_isDigits (isDigits_iff.mp h).2, h]

theorem natural?_eq_some_iff {limit n : Nat} {t : Text} :
    t.natural? limit = some n ↔
      ∃ digits : Text, (t = digits ∨ t = '+' :: digits) ∧ digits ≠ [] ∧
        (∀ c ∈ digits, c.isDigit = true) ∧ Nat.ofDigitChars 10 digits 0 = n ∧ n < limit := by
  have hread : t.natural? limit = some n ↔
      ((t.after? ['+']).getD t).isDigits = true ∧ digitsValue ((t.after? ['+']).getD t) = n ∧
        n < limit := by
    simp only [natural?, Option.ite_none_right_eq_some, Bool.and_eq_true, decide_eq_true_eq,
      Option.some.injEq]
    constructor
    · rintro ⟨⟨hdigits, hlt⟩, rfl⟩
      exact ⟨hdigits, rfl, hlt⟩
    · rintro ⟨hdigits, rfl, hlt⟩
      exact ⟨⟨hdigits, hlt⟩, rfl⟩
  rw [hread]
  constructor
  · rintro ⟨hdigits, hvalue, hlt⟩
    obtain ⟨hne, hall⟩ := isDigits_iff.mp hdigits
    refine ⟨_, ?_, hne, hall, hvalue, hlt⟩
    cases hplus : t.after? ['+'] with
    | none => exact .inl rfl
    | some rest => exact .inr (List.isPrefixOf?_eq_some_iff_append_eq.mp hplus).symm
  · rintro ⟨digits, ht, hne, hall, hvalue, hlt⟩
    have hread : (t.after? ['+']).getD t = digits := by
      rcases ht with rfl | rfl
      · rw [after?_plus_of_isDigits hall, Option.getD_none]
      · rfl
    rw [hread]
    exact ⟨isDigits_iff.mpr ⟨hne, hall⟩, hvalue, hlt⟩

theorem digitsValue_replicate_zero (k : Nat) (t : Text) :
    digitsValue (List.replicate k '0' ++ t) = digitsValue t := by
  rw [digitsValue, digitsFrom_eq, Nat.ofDigitChars_append, Nat.ofDigitChars_replicate_zero,
    Nat.mul_zero]
  rfl

theorem digitsValue_ofNat (n : Nat) : digitsValue (ofNat n) = n :=
  Nat.ofDigitChars_toDigits (by decide) (by decide)

theorem isDigit_of_mem_ofNat {n : Nat} {c : Char} (h : c ∈ ofNat n) : c.isDigit = true :=
  Nat.isDigit_of_mem_toDigits (by decide) (by decide) h

theorem length_ofNat_le_iff {n k : Nat} (hk : 0 < k) : (ofNat n).length ≤ k ↔ n < 10 ^ k :=
  Nat.length_toDigits_le_iff (by decide) hk

private theorem ofNat_digit {c : Char} (h : c.isDigit = true) :
    c.toNat - '0'.toNat < 10 ∧ ofNat (c.toNat - '0'.toNat) = [c] := by
  obtain ⟨hlow, hhigh⟩ := Char.isDigit_iff_toNat.mp h
  have hten : c.toNat - '0'.toNat < 10 := by
    change c.toNat ≤ 57 at hhigh
    change c.toNat - 48 < 10
    omega
  refine ⟨hten, ?_⟩
  rw [ofNat, Nat.toDigits_of_lt_base hten, List.singleton_inj, ← Char.toNat_inj,
    Nat.toNat_digitChar_of_lt_ten hten]
  exact Nat.add_sub_cancel' hlow

private theorem ofNat_digitsFrom {t : Text} (h : ∀ c ∈ t, c.isDigit = true) {start : Nat}
    (hstart : 0 < start) : ofNat (digitsFrom start t) = ofNat start ++ t := by
  induction t generalizing start with
  | nil => exact (List.append_nil _).symm
  | cons c t ih =>
    obtain ⟨hc, ht⟩ := List.forall_mem_cons.mp h
    obtain ⟨hten, hdigit⟩ := ofNat_digit hc
    have hnext : ofNat start ++ [c] = ofNat (10 * start + (c.toNat - '0'.toNat)) := by
      rw [← hdigit]
      exact Nat.toDigits_append_toDigits (by decide) hstart hten
    calc ofNat (digitsFrom start (c :: t))
        = ofNat (digitsFrom (10 * start + (c.toNat - '0'.toNat)) t) := rfl
      _ = ofNat start ++ [c] ++ t := by rw [ih ht (by omega), hnext]
      _ = ofNat start ++ c :: t := List.append_assoc _ _ _

theorem ofNat_digitsValue {t : Text} (h : ∀ c ∈ t, c.isDigit = true) :
    ofNat (digitsValue t) = withoutZeros t := by
  induction t with
  | nil => rfl
  | cons c t ih =>
    obtain ⟨hc, ht⟩ := List.forall_mem_cons.mp h
    by_cases hzero : c = '0'
    · subst hzero
      exact ih ht
    · have hpos : 0 < c.toNat - '0'.toNat := by
        have hlow := (Char.isDigit_iff_toNat.mp hc).1
        have hne : c.toNat ≠ '0'.toNat := fun hne => hzero (Char.toNat_inj.mp hne)
        omega
      have hvalue : digitsValue (c :: t) = digitsFrom (c.toNat - '0'.toNat) t := by
        simp only [digitsValue, digitsFrom, List.foldl_cons, Nat.mul_zero, Nat.zero_add]
      rw [hvalue, ofNat_digitsFrom ht hpos, (ofNat_digit hc).2]
      simp [withoutZeros, hzero]

private theorem length_withoutZeros_le {t : Text} (h : t ≠ []) :
    (withoutZeros t).length ≤ t.length := by
  unfold withoutZeros
  split
  · exact List.length_pos_iff.mpr h
  · rename_i hdrop
    rw [← hdrop]
    exact (List.dropWhile_sublist _).length_le

/-- A number has no more digits than are written. -/
theorem digitsValue_lt {t : Text} (h : ∀ c ∈ t, c.isDigit = true) (hne : t ≠ []) :
    digitsValue t < 10 ^ t.length := by
  rw [← length_ofNat_le_iff (List.length_pos_iff.mpr hne), ofNat_digitsValue h]
  exact length_withoutZeros_le hne

end Gerber.Text
