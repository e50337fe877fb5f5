import Gerber.Proofs.Token.Commands

/-!
# What commands keep of a text

Percent signs and stars mark where commands end, and blank characters and zeros stand between them
or are of no account.  All other characters are the content of a text.  Cutting a text into commands
loses none of it, adds nothing to it and keeps its order.
-/

namespace Gerber

namespace Text

/-- Whether a character belongs to the content of a text. -/
def isContent (c : Char) : Bool := !(c == '%' || c == '*' || c == '\x00' || isBlank c)

/-- The text without the characters that mark or separate commands. -/
def content (t : Text) : Text := t.filter isContent

@[simp] theorem content_nil : content [] = [] := rfl

@[simp] theorem content_append (t u : Text) : content (t ++ u) = content t ++ content u :=
  List.filter_append ..

private theorem content_cons (c : Char) (t : Text) :
    content (c :: t) = if isContent c then c :: content t else content t :=
  List.filter_cons

private theorem content_cons_of_not {c : Char} (h : isContent c = false) (t : Text) :
    content (c :: t) = content t := by
  rw [content_cons, h, if_neg Bool.false_ne_true]

private theorem isContent_of_isBlank {c : Char} (h : isBlank c = true) : isContent c = false := by
  simp [isContent, h]

private theorem content_of_trim {t : Text} (h : trim t = []) : content t = [] := by
  have hblank : ∀ c ∈ t, isBlank c = true := by
    rw [trim, trimBoth, trimEnd, List.reverse_eq_nil_iff, List.dropWhile_eq_nil_iff] at h
    intro c hc
    rw [← List.takeWhile_append_dropWhile (p := isBlank) (l := t), List.mem_append] at hc
    rcases hc with hc | hc
    · exact List.mem_takeWhile_imp hc
    · exact h c (List.mem_reverse.mpr hc)
  exact List.filter_eq_nil_iff.mpr fun c hc => by simp [isContent_of_isBlank (hblank c hc)]

private theorem content_splitOn (t : Text) : content (t.splitOn '*').flatten = content t := by
  induction t with
  | nil => rfl
  | cons c t ih =>
    obtain ⟨part, parts, hparts⟩ := List.exists_cons_of_ne_nil (List.splitOn_ne_nil '*' t)
    rw [List.splitOn_cons_eq_if_modifyHead]
    split
    · rename_i hstar
      rw [beq_iff_eq] at hstar
      subst hstar
      rw [List.flatten_cons, List.nil_append, ih, content_cons_of_not (by decide)]
    · rw [hparts, List.flatten_cons, content_append] at ih
      rw [hparts, List.modifyHead_cons, List.flatten_cons, List.cons_append, content_cons,
        content_cons, content_append, ih]

end Text

namespace Token

open Text

private theorem content_commands (w : Text) : content (commands w).flatten = content w :=
  filter_commands (by decide) w

private theorem content_parts (inner : Text) :
    content (parts inner).flatten = content inner := by
  rw [← content_splitOn inner, parts]
  generalize inner.splitOn '*' = cut
  induction cut with
  | nil => rfl
  | cons part cut ih =>
    rw [List.flatten_cons, content_append, ← ih]
    by_cases hblank : trim part = []
    · rw [List.filter_cons_of_neg (by simp [hblank]), content_of_trim hblank, List.nil_append]
    · rw [List.filter_cons_of_pos (by simp [hblank]), List.flatten_cons, content_append]

private theorem content_marked (parts : List Text) :
    content (parts.map fun part => '%' :: part ++ ['*', '%']).flatten =
      content parts.flatten := by
  have hmarks : content ['*', '%'] = [] := rfl
  induction parts with
  | nil => rfl
  | cons part parts ih =>
    rw [List.map_cons, List.flatten_cons, List.flatten_cons, List.cons_append, List.cons_append,
      content_cons_of_not (by decide), content_append, content_append, content_append, ih, hmarks,
      List.append_nil]

private theorem content_extendedCommands (inner : Text) (closed : Bool) :
    content (extendedCommands inner closed).flatten = content inner := by
  rcases extendedCommands_cases inner closed with hwhole | ⟨-, -, hcut⟩
  · have hsign : content (if closed then ['%'] else []) = [] := by cases closed <;> rfl
    rw [hwhole, List.flatten_cons, List.flatten_nil, List.append_nil, List.cons_append,
      content_cons_of_not (by decide), content_append, hsign, List.append_nil]
  · rw [hcut, content_marked, content_parts]

private theorem content_filter_isBreak (t : Text) :
    content (t.filter fun c => !isBreak c) = content t := by
  have hbreak : ∀ c, isContent c = true → isBreak c = false := by
    intro c hc
    by_contra h
    rw [Bool.not_eq_false, isBreak, Bool.or_eq_true, beq_iff_eq, beq_iff_eq] at h
    rcases h with rfl | rfl <;> revert hc <;> decide
  rw [content, content, List.filter_filter]
  refine List.filter_congr fun c _ => ?_
  cases hc : isContent c with
  | false => rfl
  | true => rw [hbreak c hc]; rfl

private theorem content_readBlock (word : Text) (line : Nat) (t : Text) :
    content (readBlock word line t).1 ++ content (readBlock word line t).2.2 =
      content word.reverse ++ content t := by
  fun_induction readBlock word line t with
  | case1 => simp
  | case2 => rfl
  | case3 word line c t hnot hstar =>
    rw [beq_iff_eq] at hstar
    subst hstar
    simp [content_cons_of_not (c := '*') (by decide)]
  | case4 word line c t hnot hstar hbreak ih =>
    rw [beq_iff_eq] at hbreak
    subst hbreak
    rw [ih, content_cons_of_not (by decide)]
  | case5 word line c t hnot hstar hline hbreak ih =>
    rw [beq_iff_eq] at hbreak
    subst hbreak
    rw [ih, content_cons_of_not (by decide)]
  | case6 word line c t hnot hstar hline hbreak ih =>
    rw [ih, List.reverse_cons, content_append, List.append_assoc, ← content_append]
    rfl

private theorem content_scan (line : Nat) (t : Text) :
    content ((scan line t).flatMap Token.text) = content t := by
  have htexts (texts : List Text) (line : Nat) :
      (texts.map (⟨·, line⟩ : Text → Token)).flatMap Token.text = texts.flatten := by
    rw [List.flatMap_map, List.flatMap_id']
  fun_induction scan line t with
  | case1 => rfl
  | case2 line t body rest inner ih =>
    have hrest : content (rest.drop 1) = content rest := by
      rcases dropWhile_sign t with hnil | ⟨tail, hsign⟩
      · rw [show rest = [] from hnil]
        rfl
      · rw [show rest = '%' :: tail from hsign, content_cons_of_not (by decide)]
        rfl
    rw [List.flatMap_append, content_append, htexts, content_extendedCommands, ih,
      content_cons_of_not (by decide), content_filter_isBreak, hrest, ← content_append,
      List.takeWhile_append_dropWhile]
  | case3 line t hsign ih => rw [ih, content_cons_of_not (by decide)]
  | case4 line c t hsign hbreak hblank ih =>
    have hnot : isContent c = false := by
      rw [Bool.or_eq_true] at hblank
      rcases hblank with hblank | hblank
      · exact isContent_of_isBlank hblank
      · simp [isContent, beq_iff_eq.mp hblank]
    rw [ih, content_cons_of_not hnot]
  | case5 line c t hsign hbreak hblank block ih =>
    rw [List.flatMap_append, content_append, htexts, content_commands, ih, content_readBlock]
    rfl

/-- The commands of a file have the content of the text that it encodes, in its order. -/
theorem content_ofBytes (bytes : List UInt8) :
    content ((ofBytes bytes).flatMap Token.text) = content (ofUtf8 bytes) :=
  content_scan 1 (ofUtf8 bytes)

end Token

end Gerber
