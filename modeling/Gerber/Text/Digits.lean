import Gerber.Text

/-!
# Decimal digits

Reading and writing natural numbers in ASCII digits.
-/

namespace Gerber.Text

def digitsFrom (start : Nat) (t : Text) : Nat :=
  t.foldl (fun n c => 10 * n + (c.toNat - '0'.toNat)) start

def digitsValue (t : Text) : Nat := digitsFrom 0 t

def isDigits (t : Text) : Bool := !t.isEmpty && t.all Char.isDigit

/-- The natural number below `limit` that the text writes: one plus sign may stand before the
digits, and zeros may lead them. -/
def natural? (limit : Nat) (t : Text) : Option Nat :=
  let digits := (t.after? ['+']).getD t
  if digits.isDigits && digitsValue digits < limit then some (digitsValue digits) else none

def ofNat (n : Nat) : Text := Nat.toDigits 10 n

def ofInt (n : Int) : Text := if n < 0 then '-' :: ofNat n.natAbs else ofNat n.natAbs

/-- No digit is a letter. -/
theorem not_isAlpha_of_isDigit {c : Char} (h : c.isDigit = true) : c.isAlpha = false := by
  have hdigit : (decide ('0'.val ≤ c.val) && decide (c.val ≤ '9'.val)) = true := h
  rw [Bool.and_eq_true, decide_eq_true_eq, decide_eq_true_eq, UInt32.le_iff_toNat_le,
    UInt32.le_iff_toNat_le] at hdigit
  change 48 ≤ c.val.toNat ∧ c.val.toNat ≤ 57 at hdigit
  change (decide ('A'.val ≤ c.val ∧ c.val ≤ 'Z'.val) ||
    (decide ('a'.val ≤ c.val) && decide (c.val ≤ 'z'.val))) = false
  rw [Bool.or_eq_false_iff, Bool.and_eq_false_iff, decide_eq_false_iff_not,
    decide_eq_false_iff_not, decide_eq_false_iff_not, UInt32.le_iff_toNat_le,
    UInt32.le_iff_toNat_le, UInt32.le_iff_toNat_le, UInt32.le_iff_toNat_le]
  change ¬ (65 ≤ c.val.toNat ∧ c.val.toNat ≤ 90) ∧ (¬ 97 ≤ c.val.toNat ∨ ¬ c.val.toNat ≤ 122)
  omega

end Gerber.Text
