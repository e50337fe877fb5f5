import Gerber.Text

/-!
# Blank characters

A character is blank if it has the Unicode property White_Space.  Twenty-five characters do.
-/

namespace Gerber.Text

/-- The first and last code point of each run of blank characters. -/
def blankRuns : List (Nat × Nat) :=
  [(0x9, 0xD), (0x20, 0x20), (0x85, 0x85), (0xA0, 0xA0), (0x1680, 0x1680), (0x2000, 0x200A),
    (0x2028, 0x2029), (0x202F, 0x202F), (0x205F, 0x205F), (0x3000, 0x3000)]

def isBlank (c : Char) : Bool :=
  blankRuns.any fun run => run.1 ≤ c.toNat && c.toNat ≤ run.2

def trim (t : Text) : Text := trimBoth isBlank t

def trimLead (t : Text) : Text := t.dropWhile isBlank

/-- Every character that counts as white space in core is blank. -/
theorem isBlank_of_isWhitespace {c : Char} (h : c.isWhitespace = true) : isBlank c = true := by
  simp only [Char.isWhitespace, Bool.or_eq_true, decide_eq_true_eq] at h
  rcases h with ((h | h) | h) | h <;> subst h <;> decide

end Gerber.Text
