import Gerber.Proofs.Token.Commands
import Mathlib.Data.List.Basic

/-!
# How far a data block reaches

A data block goes on at least to the next star or percent sign.  What has been read of it decides
only whether it goes on after a percent sign.  The line that is counted along decides nothing.
-/

namespace Gerber.Token

/-- The text without its line breaks. -/
def shown (t : Text) : Text := t.filter fun c => !isBreak c

@[simp] theorem shown_nil : shown [] = [] := rfl

@[simp] theorem shown_append (t u : Text) : shown (t ++ u) = shown t ++ shown u :=
  List.filter_append ..

theorem shown_cons_of_break {c : Char} (h : isBreak c = true) (t : Text) :
    shown (c :: t) = shown t := by
  simp [shown, h]

theorem shown_cons_of_not_break {c : Char} (h : isBreak c = false) (t : Text) :
    shown (c :: t) = c :: shown t := by
  simp [shown, h]

/-- Whether a character between commands belongs to none of them. -/
def isGap (c : Char) : Bool := Text.isBlank c || c == '\x00'

theorem isBreak_of_isGap {c : Char} (h : isGap c = false) : isBreak c = false := by
  by_contra hbreak
  rw [Bool.not_eq_false, isBreak, Bool.or_eq_true, beq_iff_eq, beq_iff_eq] at hbreak
  rcases hbreak with rfl | rfl <;> exact absurd h (by decide)

/-- Whether a character ends a data block, or may end it. -/
def isEnd (c : Char) : Bool := c == '*' || c == '%'

/-- The text in front of the first star or percent sign. -/
def stretch (t : Text) : Text := t.takeWhile fun c => !isEnd c

/-- The text from the first star or percent sign on. -/
def onward (t : Text) : Text := t.dropWhile fun c => !isEnd c

private theorem stretch_append_onward (t : Text) : stretch t ++ onward t = t :=
  List.takeWhile_append_dropWhile

private theorem isEnd_of_mem_stretch {t : Text} {c : Char} (h : c ∈ stretch t) :
    isEnd c = false := by
  simpa using List.mem_takeWhile_imp h

private theorem onward_cases (t : Text) :
    onward t = [] ∨ (∃ rest, onward t = '*' :: rest) ∨ ∃ rest, onward t = '%' :: rest := by
  cases h : onward t with
  | nil => exact .inl rfl
  | cons c rest =>
    have hne : onward t ≠ [] := by simp [h]
    have hhead := List.head_dropWhile_not (fun c => !isEnd c) hne
    have hend : isEnd c = true := by
      simp only [onward] at h
      simpa [h] using hhead
    rw [isEnd, Bool.or_eq_true, beq_iff_eq, beq_iff_eq] at hend
    rcases hend with rfl | rfl
    · exact .inr (.inl ⟨rest, rfl⟩)
    · exact .inr (.inr ⟨rest, rfl⟩)

private theorem readBlock_newline (word : Text) (line : Nat) (t : Text) :
    readBlock word line ('\n' :: t) = readBlock word (line + 1) t := rfl

private theorem readBlock_return (word : Text) (line : Nat) (t : Text) :
    readBlock word line ('\r' :: t) = readBlock word line t := rfl

private theorem readBlock_keep {c : Char} (hend : isEnd c = false) (hbreak : isBreak c = false)
    (word : Text) (line : Nat) (t : Text) :
    readBlock word line (c :: t) = readBlock (c :: word) line t := by
  rw [isEnd, Bool.or_eq_false_iff] at hend
  rw [isBreak, Bool.or_eq_false_iff] at hbreak
  simp [readBlock, hend, hbreak]

/-- A data block goes on over everything but stars and percent signs. -/
theorem readBlock_append (word : Text) (line : Nat) {t : Text} (h : ∀ c ∈ t, isEnd c = false)
    (u : Text) :
    readBlock word line (t ++ u) =
      readBlock ((shown t).reverse ++ word) (line + t.count '\n') u := by
  induction t generalizing word line with
  | nil => rfl
  | cons c t ih =>
    obtain ⟨hc, ht⟩ := List.forall_mem_cons.mp h
    rw [List.cons_append]
    by_cases hline : c = '\n'
    · subst hline
      rw [readBlock_newline, ih _ _ ht, shown_cons_of_break rfl, List.count_cons_self,
        Nat.add_right_comm, Nat.add_assoc]
    rw [List.count_cons_of_ne hline]
    by_cases hreturn : c = '\r'
    · subst hreturn
      rw [readBlock_return, ih _ _ ht, shown_cons_of_break rfl]
    · have hkept : isBreak c = false := by simp [isBreak, hline, hreturn]
      rw [readBlock_keep hc hkept, ih _ _ ht, shown_cons_of_not_break hkept]
      simp

theorem readBlock_star (word : Text) (line : Nat) (t : Text) :
    readBlock word line ('*' :: t) = (word.reverse ++ ['*'], line, t) := by
  simp [readBlock]

theorem readBlock_sign {word : Text} (h : isComment word.reverse = false) (line : Nat)
    (t : Text) : readBlock word line ('%' :: t) = (word.reverse, line, '%' :: t) := by
  simp [readBlock, h]

theorem readBlock_sign_of_comment {word : Text} (h : isComment word.reverse = true) (line : Nat)
    (t : Text) : readBlock word line ('%' :: t) = readBlock ('%' :: word) line t := by
  simp [readBlock, h]

/-- What is read comes from the front of the text, and its line breaks are counted. -/
theorem exists_source (word : Text) (line : Nat) (t : Text) :
    ∃ source, t = source ++ (readBlock word line t).2.2 ∧
      (readBlock word line t).1 = word.reverse ++ shown source ∧
      (readBlock word line t).2.1 = line + source.count '\n' := by
  fun_induction readBlock word line t with
  | case1 word line => exact ⟨[], by simp⟩
  | case2 word line c t hsign => exact ⟨[], by simp⟩
  | case3 word line c t hsign hstar =>
    obtain rfl := beq_iff_eq.mp hstar
    exact ⟨['*'], by simp [shown, isBreak]⟩
  | case4 word line c t hsign hstar hline ih =>
    obtain rfl := beq_iff_eq.mp hline
    obtain ⟨source, ht, hread, hreached⟩ := ih
    refine ⟨'\n' :: source, by rw [List.cons_append, ← ht], ?_, ?_⟩
    · rw [hread, shown_cons_of_break rfl]
    · rw [hreached, List.count_cons_self]
      omega
  | case5 word line c t hsign hstar hline hreturn ih =>
    obtain rfl := beq_iff_eq.mp hreturn
    obtain ⟨source, ht, hread, hreached⟩ := ih
    refine ⟨'\r' :: source, by rw [List.cons_append, ← ht], ?_, ?_⟩
    · rw [hread, shown_cons_of_break rfl]
    · rw [hreached, List.count_cons_of_ne (by decide)]
  | case6 word line c t hsign hstar hline hreturn ih =>
    obtain ⟨source, ht, hread, hreached⟩ := ih
    have hkept : isBreak c = false :=
      Bool.or_eq_false_iff.mpr ⟨Bool.eq_false_iff.mpr hline, Bool.eq_false_iff.mpr hreturn⟩
    refine ⟨c :: source, by rw [List.cons_append, ← ht], ?_, ?_⟩
    · rw [hread, shown_cons_of_not_break hkept]
      simp
    · rw [hreached, List.count_cons_of_ne (by simpa using hline)]

/-- What a data block holds and what is left of the text do not depend on the line. -/
theorem readBlock_line (word : Text) (line line' : Nat) (t : Text) :
    (readBlock word line t).1 = (readBlock word line' t).1 ∧
      (readBlock word line t).2.2 = (readBlock word line' t).2.2 := by
  fun_induction readBlock word line t generalizing line' with
  | case1 word line => exact ⟨rfl, rfl⟩
  | case2 word line c t hsign => simp [readBlock, hsign]
  | case3 word line c t hsign hstar => simp [readBlock, hsign, hstar]
  | case4 word line c t hsign hstar hline ih =>
    simpa [readBlock, hsign, hstar, hline] using ih (line' + 1)
  | case5 word line c t hsign hstar hline hreturn ih =>
    simpa [readBlock, hsign, hstar, hline, hreturn] using ih line'
  | case6 word line c t hsign hstar hline hreturn ih =>
    simpa [readBlock, hsign, hstar, hline, hreturn] using ih line'

@[simp] theorem scan_nil (line : Nat) : scan line [] = [] := by
  rw [scan]

theorem scan_sign (line : Nat) (t : Text) :
    scan line ('%' :: t) =
      (extendedCommands (enclosed t) !(t.dropWhile (· != '%')).isEmpty).map (⟨·, line⟩) ++
        scan (line + (t.takeWhile (· != '%')).count '\n') ((t.dropWhile (· != '%')).drop 1) := by
  rw [scan, dif_pos rfl]
  rfl

theorem scan_gap {c : Char} (h : isGap c = true) (line : Nat) (t : Text) :
    scan line (c :: t) = scan (line + [c].count '\n') t := by
  have hsign : c ≠ '%' := by
    rintro rfl
    exact absurd h (by decide)
  rw [isGap] at h
  rw [scan, dif_neg hsign]
  by_cases hline : c = '\n'
  · subst hline
    rw [if_pos rfl]
    rfl
  · rw [if_neg hline, if_pos h, List.count_singleton, if_neg (by simpa using hline)]
    rfl

theorem scan_block {c : Char} (hsign : c ≠ '%') (hgap : isGap c = false) (line : Nat) (t : Text) :
    scan line (c :: t) =
      (commands (readBlock [] line (c :: t)).1).map (⟨·, line⟩) ++
        scan (readBlock [] line (c :: t)).2.1 (readBlock [] line (c :: t)).2.2 := by
  have hline : c ≠ '\n' := by
    rintro rfl
    exact absurd hgap (by decide)
  rw [scan, dif_neg hsign, if_neg hline, if_neg (by rw [← isGap, hgap]; exact Bool.false_ne_true)]

def texts (tokens : List Token) : List Text := tokens.map Token.text

@[simp] theorem texts_append (tokens more : List Token) :
    texts (tokens ++ more) = texts tokens ++ texts more :=
  List.map_append ..

@[simp] theorem texts_stamped (commands : List Text) (line : Nat) :
    texts (commands.map (⟨·, line⟩)) = commands := by
  simp [texts, Function.comp_def]

/-- The texts of commands do not depend on the line that the text starts on. -/
theorem texts_scan_line (line line' : Nat) (t : Text) :
    texts (scan line t) = texts (scan line' t) := by
  fun_induction scan line t generalizing line' with
  | case1 => rw [scan_nil]
  | case2 line t body rest inner ih =>
    rw [scan_sign]
    simp only [texts_append, texts_stamped]
    exact congrArg _ (ih _)
  | case3 line t hsign ih => rw [scan_gap (by decide), ih]
  | case4 line c t hsign hline hgap ih => rw [scan_gap hgap, ih]
  | case5 line c t hsign hline hgap block ih =>
    have hread := readBlock_line [] line line' (c :: t)
    rw [scan_block hsign (Bool.eq_false_iff.mpr hgap)]
    simp only [texts_append, texts_stamped, ← hread.1, ← hread.2]
    exact congrArg _ (ih _)

/-- The texts of commands from inside a data block on, of which `word` has been read. -/
def textsFrom (word t : Text) : List Text :=
  commands (readBlock word.reverse 1 t).1 ++ texts (scan 1 (readBlock word.reverse 1 t).2.2)

theorem textsFrom_line (word : Text) (line line' : Nat) (t : Text) :
    commands (readBlock word.reverse line t).1 ++
      texts (scan line' (readBlock word.reverse line t).2.2) = textsFrom word t := by
  have hread := readBlock_line word.reverse line 1 t
  rw [textsFrom, hread.1, hread.2, texts_scan_line]

theorem texts_scan_block {c : Char} (hsign : c ≠ '%') (hgap : isGap c = false) (line : Nat)
    (t : Text) : texts (scan line (c :: t)) = textsFrom [] (c :: t) := by
  rw [scan_block hsign hgap, texts_append, texts_stamped]
  exact textsFrom_line [] line _ (c :: t)

theorem textsFrom_append (word : Text) {t : Text} (h : ∀ c ∈ t, isEnd c = false) (u : Text) :
    textsFrom word (t ++ u) = textsFrom (word ++ shown t) u := by
  rw [textsFrom, readBlock_append word.reverse 1 h, ← List.reverse_append]
  exact textsFrom_line _ _ _ u

theorem textsFrom_stretch (word t : Text) :
    textsFrom word t = textsFrom (word ++ shown (stretch t)) (onward t) := by
  rw [← textsFrom_append word fun c hc => isEnd_of_mem_stretch hc, stretch_append_onward]

theorem textsFrom_star (word t : Text) :
    textsFrom word ('*' :: t) = commands (word ++ ['*']) ++ texts (scan 1 t) := by
  rw [textsFrom, readBlock_star, List.reverse_reverse]

/-- Where a star, a percent sign or the end is reached, a data block ends, except for a comment that
reaches a percent sign. -/
theorem textsFrom_onward (t : Text) :
    ∃ star rest, (star = [] ∨ star = ['*']) ∧ ∀ word,
      ((onward t).head? = some '%' → isComment word = false) →
        textsFrom word (onward t) = commands (word ++ star) ++ rest := by
  rcases onward_cases t with hnil | ⟨rest, hstar⟩ | ⟨rest, hsign⟩
  · refine ⟨[], [], .inl rfl, fun word _ => ?_⟩
    simp [hnil, textsFrom, readBlock, texts]
  · exact ⟨['*'], texts (scan 1 rest), .inr rfl, fun word _ => by rw [hstar, textsFrom_star]⟩
  · refine ⟨[], texts (scan 1 ('%' :: rest)), .inl rfl, fun word hcomment => ?_⟩
    have hnone : isComment word.reverse.reverse = false := by
      rw [List.reverse_reverse]
      exact hcomment (by rw [hsign]; rfl)
    rw [hsign, textsFrom, readBlock_sign hnone, List.reverse_reverse, List.append_nil]

/-- A comment of at least three characters stays one, and nothing is cut from it. -/
theorem textsFrom_of_comment {a b c : Char} {word : Text}
    (h : isComment (a :: b :: c :: word) = true) (t : Text) :
    ∃ more rest, textsFrom (a :: b :: c :: word) t = (a :: b :: c :: more) :: rest := by
  obtain ⟨source, -, hread, -⟩ := exists_source (a :: b :: c :: word).reverse 1 t
  rw [List.reverse_reverse, List.cons_append, List.cons_append, List.cons_append] at hread
  rw [isComment_cons_cons_cons, ← isComment_cons_cons_cons a b c (word ++ shown source)] at h
  rw [textsFrom, hread, commands_of_comment h]
  exact ⟨_, _, rfl⟩

end Gerber.Token
