import Gerber.Text

/-!
# UTF-8

Bytes are read as UTF-8 and every byte sequence has a reading: a longest run of bytes that
starts a well-formed sequence without completing it becomes one replacement character.
-/

namespace Gerber.Text

def replacement : Char := '\uFFFD'

/-- What a leading byte of a sequence of two to four bytes demands: how many bytes follow, the
bounds of the first of them, and the bits that the leading byte contributes. -/
structure Utf8Lead where
  following : Nat
  lo : UInt8
  hi : UInt8
  bits : Nat

/-- The demands of a byte that leads a sequence of several bytes. -/
def Utf8Lead.of? (b : UInt8) : Option Utf8Lead :=
  if 0xC2 ≤ b && b ≤ 0xDF then some ⟨1, 0x80, 0xBF, b.toNat % 32⟩
  else if b == 0xE0 then some ⟨2, 0xA0, 0xBF, 0⟩
  else if b == 0xED then some ⟨2, 0x80, 0x9F, 13⟩
  else if 0xE1 ≤ b && b ≤ 0xEF then some ⟨2, 0x80, 0xBF, b.toNat % 16⟩
  else if b == 0xF0 then some ⟨3, 0x90, 0xBF, 0⟩
  else if 0xF1 ≤ b && b ≤ 0xF3 then some ⟨3, 0x80, 0xBF, b.toNat % 8⟩
  else if b == 0xF4 then some ⟨3, 0x80, 0x8F, 4⟩
  else none

/-- Reads `n` further bytes of a sequence, the first of them between `lo` and `hi`.  The code
point is missing if one of them does not fit, and reading goes on with that byte. -/
def utf8Rest : Nat → UInt8 → UInt8 → Nat → List UInt8 → Option Nat × List UInt8
  | 0, _, _, bits, bytes => (some bits, bytes)
  | _ + 1, _, _, _, [] => (none, [])
  | n + 1, lo, hi, bits, b :: bytes =>
    if lo ≤ b && b ≤ hi then utf8Rest n 0x80 0xBF (bits * 64 + b.toNat % 64) bytes
    else (none, b :: bytes)

theorem length_utf8Rest_le (n : Nat) (lo hi : UInt8) (bits : Nat) (bytes : List UInt8) :
    (utf8Rest n lo hi bits bytes).2.length ≤ bytes.length := by
  induction n generalizing lo hi bits bytes with
  | zero => simp [utf8Rest]
  | succ n ih =>
    cases bytes with
    | nil => simp [utf8Rest]
    | cons b bytes =>
      simp only [utf8Rest]
      split
      · exact Nat.le_succ_of_le (ih 0x80 0xBF _ bytes)
      · exact Nat.le_refl _

/-- The characters that the bytes encode, with replacements where they encode none. -/
def ofUtf8 : List UInt8 → Text
  | [] => []
  | b :: bytes =>
    if b < 0x80 then Char.ofNat b.toNat :: ofUtf8 bytes
    else
      match Utf8Lead.of? b with
      | none => replacement :: ofUtf8 bytes
      | some lead =>
        let sequence := utf8Rest lead.following lead.lo lead.hi lead.bits bytes
        (sequence.1.map Char.ofNat).getD replacement :: ofUtf8 sequence.2
termination_by bytes => bytes.length
decreasing_by
  · simp
  · simp
  · exact Nat.lt_succ_of_le (length_utf8Rest_le ..)

def utf8Size (t : Text) : Nat := t.foldr (fun c size => c.utf8Size + size) 0

end Gerber.Text
