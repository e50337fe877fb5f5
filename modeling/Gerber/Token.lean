import Gerber.Text.Blank
import Gerber.Text.Utf8

/-!
# Tokens

A file is split into commands.  An extended command stands between percent signs and keeps both
of them; a data block ends with a star and keeps it.  Splitting never fails: what is no command is
passed on as it stands.
-/

namespace Gerber

/-- One command as it appears in the source, with the line it starts on. -/
structure Token where
  text : Text
  line : Nat
deriving DecidableEq

namespace Token

/-- Whether a command is a comment: code `G04`, or `G4` if no digit follows. -/
def isComment : Text → Bool
  | 'G' :: '0' :: '4' :: _ => true
  | 'G' :: '4' :: c :: _ => !c.isDigit
  | ['G', '4'] => true
  | _ => false

/-- Splits off a code of one or two digits that is glued to something other than a star. -/
def splitCode? : Text → Option (Text × Text)
  | 'G' :: t =>
    let digits := t.takeWhile Char.isDigit
    let tail := t.dropWhile Char.isDigit
    if digits.isEmpty || 2 < digits.length || tail.isEmpty || tail.head? == some '*' then none
    else some ('G' :: digits, tail)
  | _ => none

theorem length_splitCode?_lt {w code tail : Text} (h : splitCode? w = some (code, tail)) :
    tail.length < w.length := by
  unfold splitCode? at h
  split at h
  · simp only at h
    split at h
    · cases h
    · cases h
      exact Nat.lt_succ_of_le (List.dropWhile_sublist _).length_le
  · cases h

/-- The commands in a data block: each glued code is a command of its own, and a block that is
nothing but a star is none. -/
def commands (w : Text) : List Text :=
  if isComment w then [w]
  else
    match _ : splitCode? w with
    | some (code, tail) => (code ++ ['*']) :: commands tail
    | none => if w.isEmpty || w == ['*'] then [] else [w]
termination_by w.length
decreasing_by exact length_splitCode?_lt (by assumption)

/-- The commands in an extended block: one for each part between stars that is not blank.  A macro
definition, a block of one part and a block without its closing sign stay whole. -/
def extendedCommands (content : Text) (closed : Bool) : List Text :=
  let block : Text := '%' :: content ++ (if closed then ['%'] else [])
  let parts := (content.splitOn '*').filter fun part => !(Text.trim part).isEmpty
  if block.startsWith "%AM".toList || !closed || parts.length ≤ 1 then [block]
  else parts.map fun part => '%' :: part ++ ['*', '%']

/-- What a line break or carriage return leaves of a block: nothing. -/
def isBreak (c : Char) : Bool := c == '\n' || c == '\r'

/-- Reads a data block after the characters `word`, given in reverse, that lie on `line`: up to a
star, or up to a percent sign outside a comment, or to the end.  The result is the block, the line
reached and the rest. -/
def readBlock (word : Text) (line : Nat) : Text → Text × Nat × Text
  | [] => (word.reverse, line, [])
  | c :: t =>
    if c == '%' && !isComment word.reverse then (word.reverse, line, c :: t)
    else if c == '*' then ((c :: word).reverse, line, t)
    else if c == '\n' then readBlock word (line + 1) t
    else if c == '\r' then readBlock word line t
    else readBlock (c :: word) line t

theorem length_readBlock_le (word : Text) (line : Nat) (t : Text) :
    (readBlock word line t).2.2.length ≤ t.length := by
  induction t generalizing word line with
  | nil => simp [readBlock]
  | cons c t ih =>
    simp only [readBlock]
    split
    · exact Nat.le_refl _
    · split
      · exact Nat.le_succ _
      · split
        · exact Nat.le_succ_of_le (ih ..)
        · split
          · exact Nat.le_succ_of_le (ih ..)
          · exact Nat.le_succ_of_le (ih ..)

theorem length_readBlock_lt (line : Nat) {c : Char} (hc : c ≠ '%') (t : Text) :
    (readBlock [] line (c :: t)).2.2.length < (c :: t).length := by
  have hp : (c == '%') = false := by simpa using hc
  simp only [readBlock, hp, Bool.false_and, Bool.false_eq_true, if_false]
  split
  · exact Nat.lt_succ_self _
  · split
    · exact Nat.lt_succ_of_le (length_readBlock_le ..)
    · split
      · exact Nat.lt_succ_of_le (length_readBlock_le ..)
      · exact Nat.lt_succ_of_le (length_readBlock_le ..)

/-- The commands of a text whose first character is on `line`. -/
def scan (line : Nat) : Text → List Token
  | [] => []
  | c :: t =>
    if hc : c = '%' then
      let body := t.takeWhile (· != '%')
      let rest := t.dropWhile (· != '%')
      let content := body.filter fun c => !isBreak c
      (extendedCommands content !rest.isEmpty).map (⟨·, line⟩) ++
        scan (line + body.count '\n') (rest.drop 1)
    else if c = '\n' then scan (line + 1) t
    else if Text.isBlank c || c == '\x00' then scan line t
    else
      let block := readBlock [] line (c :: t)
      (commands block.1).map (⟨·, line⟩) ++ scan block.2.1 block.2.2
termination_by t => t.length
decreasing_by
  · have h : (t.dropWhile (· != '%')).length ≤ t.length := (List.dropWhile_sublist _).length_le
    simp only [List.length_drop, List.length_cons]
    omega
  · simp
  · simp
  · exact length_readBlock_lt line hc t

/-- The commands of a file. -/
def ofBytes (bytes : List UInt8) : List Token := scan 1 (Text.ofUtf8 bytes)

end Token

end Gerber
