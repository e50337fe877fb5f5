import Gerber.Proofs.Token.Commands
import Mathlib.Data.List.Basic

/-!
# The shape of commands

Cutting a text into commands cannot fail, but not every command is complete.  What can be relied on
is this: an extended command holds no percent signs but its own, and only the last command can lack
its closing sign; a data block ends at its first star, holds percent signs only if it is a comment,
starts with no glued code unless it is a comment, and lacks its star only at the end of the text or
before an extended command.
-/

namespace Gerber.Token

/-- An extended command: a percent sign, text without percent signs, and a closing percent sign if
it is `closed`. -/
def IsExtended (closed : Bool) (t : Text) : Prop :=
  ∃ inner : Text, '%' ∉ inner ∧ t = '%' :: inner ++ if closed then ['%'] else []

/-- A data block that ends at its first star and holds percent signs only if it is a comment.  Line
breaks have been left out. -/
structure IsWord (w : Text) : Prop where
  breaks : ∀ c ∈ w, isBreak c = false
  star_last : '*' ∉ w.dropLast
  comment : '%' ∈ w → isComment w = true

/-- A data block that is a command of its own: no code is glued to its front unless it is a
comment. -/
structure IsBlock (t : Text) : Prop where
  head?_ne : t.head? ≠ some '%'
  star_last : '*' ∉ t.dropLast
  comment : '%' ∈ t → isComment t = true
  unglued : isComment t = false → splitCode? t = none

/-- What may follow a data block without a star: nothing, or an extended command. -/
def Interrupts (after : List Token) : Prop :=
  after = [] ∨ ∃ next rest closed, after = next :: rest ∧ IsExtended closed next.text

/-- The shape of a command in front of other commands. -/
structure Shaped (t : Text) (after : List Token) : Prop where
  breaks : ∀ c ∈ t, isBreak c = false
  extended_or_block :
    (IsExtended true t ∨ IsExtended false t ∧ after = []) ∨
      IsBlock t ∧ (t.getLast? = some '*' ∨ Interrupts after)

/-- All commands have the shape of a command. -/
inductive AllShaped : List Token → Prop
  | nil : AllShaped []
  | cons {token : Token} {rest : List Token} :
      Shaped token.text rest → AllShaped rest → AllShaped (token :: rest)

private theorem isComment_head {w : Text} (h : isComment w = true) : w.head? = some 'G' := by
  unfold isComment at h
  split at h <;> first | rfl | cases h

/-- A comment stays one if it goes on with anything but a digit. -/
theorem isComment_concat {w : Text} (h : isComment w = true) {c : Char} (hc : c.isDigit = false) :
    isComment (w ++ [c]) = true := by
  unfold isComment at h
  split at h
  · rfl
  · simpa [isComment] using h
  · simp [isComment, hc]
  · cases h

/-- A comment that holds a percent sign stays one, however it goes on. -/
theorem isComment_append {w : Text} (h : isComment w = true) (hsign : '%' ∈ w) (more : Text) :
    isComment (w ++ more) = true := by
  unfold isComment at h
  split at h
  · rfl
  · simpa [isComment] using h
  · simp at hsign
  · cases h

private theorem IsWord.head?_ne {w : Text} (h : IsWord w) : w.head? ≠ some '%' := by
  intro hhead
  have hcomment := isComment_head (h.comment (List.mem_of_mem_head? hhead))
  rw [hhead] at hcomment
  cases hcomment

private theorem isWord_nil : IsWord [] := ⟨by simp, by simp, by simp⟩

/-- A character that does not end a data block keeps it what it is. -/
theorem IsWord.concat {w : Text} (h : IsWord w) (hstar : '*' ∉ w) {c : Char}
    (hbreak : isBreak c = false) (hc : c = '%' → Token.isComment w = true) : IsWord (w ++ [c]) where
  breaks d hd := by
    rcases List.mem_append.mp hd with hd | hd
    · exact h.breaks d hd
    · rwa [List.mem_singleton.mp hd]
  star_last := by rwa [List.dropLast_concat]
  comment hsign := by
    rcases List.mem_append.mp hsign with hsign | hsign
    · exact isComment_append (h.comment hsign) hsign [c]
    · obtain rfl := List.mem_singleton.mp hsign
      exact isComment_concat (hc rfl) (by decide)

private theorem isWord_readBlock (word : Text) (line : Nat) (t : Text) (h : IsWord word.reverse)
    (hstar : '*' ∉ word) :
    IsWord (readBlock word line t).1 ∧
      ((readBlock word line t).1.getLast? = some '*' ∨ (readBlock word line t).2.2 = [] ∨
        ∃ rest, (readBlock word line t).2.2 = '%' :: rest) := by
  have hnone : '*' ∉ word.reverse := fun hmem => hstar (List.mem_reverse.mp hmem)
  fun_induction readBlock word line t with
  | case1 => exact ⟨h, .inr (.inl rfl)⟩
  | case2 word line c t hsign =>
    rw [Bool.and_eq_true, beq_iff_eq] at hsign
    exact ⟨h, .inr (.inr ⟨t, by rw [hsign.1]⟩)⟩
  | case3 word line c t hsign hend =>
    obtain rfl := beq_iff_eq.mp hend
    rw [List.reverse_cons]
    refine ⟨h.concat hnone (by decide) fun hc => ?_, .inl (by simp)⟩
    cases hc
  | case4 word line c t hsign hend hline ih => exact ih h hstar hnone
  | case5 word line c t hsign hend hline hbreak ih => exact ih h hstar hnone
  | case6 word line c t hsign hend hline hbreak ih =>
    have hkept : isBreak c = false :=
      Bool.or_eq_false_iff.mpr ⟨Bool.eq_false_iff.mpr hline, Bool.eq_false_iff.mpr hbreak⟩
    have hword : IsWord (c :: word).reverse := by
      rw [List.reverse_cons]
      refine h.concat hnone hkept ?_
      rintro rfl
      simpa using hsign
    have hmore : '*' ∉ c :: word :=
      List.not_mem_cons_of_ne_of_not_mem (fun hc => hend (beq_iff_eq.mpr hc.symm)) hstar
    exact ih hword hmore (fun hmem => hmore (List.mem_reverse.mp hmem))

/-- What follows a glued code in a data block is a data block. -/
theorem IsWord.tail {code tail : Text} (h : IsWord (code ++ tail)) (htail : tail ≠ [])
    (hcomment : Token.isComment (code ++ tail) = false) : IsWord tail where
  breaks c hc := h.breaks c (List.mem_append_right code hc)
  star_last hmem := by
    refine h.star_last ?_
    rw [List.dropLast_append_of_ne_nil htail]
    exact List.mem_append_right code hmem
  comment hsign := by
    have hwhole := h.comment (List.mem_append_right code hsign)
    rw [hcomment] at hwhole
    cases hwhole

/-- A code with a star is a command of its own. -/
theorem IsCode.isBlock {code : Text} (h : IsCode code) : IsBlock (code ++ ['*']) := by
  obtain ⟨digits, rfl, hne, hlength, hdigits⟩ := h
  have hsign {c : Char} (hc : c.isDigit = false) : c ∉ digits := fun hmem => by
    rw [hdigits c hmem] at hc
    cases hc
  refine ⟨by simp, ?_, ?_, fun _ => ?_⟩
  · rw [List.dropLast_concat]
    exact List.not_mem_cons_of_ne_of_not_mem (by decide) (hsign (by decide))
  · simp [hsign (c := '%') (by decide)]
  · -- the digits end at the star, so nothing is glued
    simp [splitCode?, List.dropWhile_append_of_pos hdigits]

private theorem allShaped_commands {w : Text} {after : List Token} (line : Nat) (h : IsWord w)
    (hend : w.getLast? = some '*' ∨ Interrupts after) (hafter : AllShaped after) :
    AllShaped ((commands w).map (⟨·, line⟩) ++ after) := by
  fun_induction commands w with
  | case1 w hcomment =>
    have hblock : IsBlock w :=
      ⟨h.head?_ne, h.star_last, h.comment, fun hnot => by rw [hcomment] at hnot; cases hnot⟩
    exact .cons ⟨h.breaks, .inr ⟨hblock, hend⟩⟩ hafter
  | case2 w hcomment code tail hsplit ih =>
    obtain ⟨hcode, hgoes, rfl⟩ := isCode_and_goesOn_of_splitCode? hsplit
    have hne : tail ≠ [] := by
      obtain ⟨c, rest, rfl, -, -⟩ := hgoes
      exact List.cons_ne_nil c rest
    have htail := ih (h.tail hne (Bool.eq_false_iff.mpr hcomment))
      (by rwa [List.getLast?_append_of_ne_nil _ hne] at hend)
    refine .cons ⟨?_, .inr ⟨hcode.isBlock, .inl (by simp)⟩⟩ htail
    intro c hc
    rcases List.mem_append.mp hc with hc | hc
    · exact h.breaks c (List.mem_append_left tail hc)
    · rw [List.mem_singleton.mp hc]
      decide
  | case3 => exact hafter
  | case4 w hcomment hsplit hsome =>
    have hblock : IsBlock w := ⟨h.head?_ne, h.star_last, h.comment, fun _ => hsplit⟩
    exact .cons ⟨h.breaks, .inr ⟨hblock, hend⟩⟩ hafter

private theorem AllShaped.cons_extended {inner : Text} {after : List Token} (closed : Bool)
    (line : Nat) (hsign : '%' ∉ inner) (hbreaks : ∀ c ∈ inner, isBreak c = false)
    (hend : closed = false → after = []) (hafter : AllShaped after) :
    AllShaped (⟨'%' :: inner ++ if closed then ['%'] else [], line⟩ :: after) := by
  refine .cons ⟨?_, .inl ?_⟩ hafter
  · have hclosing : ∀ c ∈ (if closed then ['%'] else [] : Text), isBreak c = false := by
      cases closed with
      | true => exact List.forall_mem_singleton.mpr rfl
      | false => exact List.forall_mem_nil _
    rw [List.cons_append]
    exact List.forall_mem_cons.mpr ⟨by decide, List.forall_mem_append.mpr ⟨hbreaks, hclosing⟩⟩
  · cases closed with
    | true => exact .inl ⟨inner, hsign, rfl⟩
    | false => exact .inr ⟨⟨inner, hsign, rfl⟩, hend rfl⟩

private theorem allShaped_extendedCommands {inner : Text} {closed : Bool} {after : List Token}
    (line : Nat) (hsign : '%' ∉ inner) (hbreaks : ∀ c ∈ inner, isBreak c = false)
    (hend : closed = false → after = []) (hafter : AllShaped after) :
    AllShaped ((extendedCommands inner closed).map (⟨·, line⟩) ++ after) := by
  rcases extendedCommands_cases inner closed with hwhole | ⟨-, -, hcut⟩
  · rw [hwhole]
    exact hafter.cons_extended closed line hsign hbreaks hend
  · have hheld : ∀ part ∈ parts inner, ∀ c ∈ part, c ∈ inner :=
      fun part hpart c hc => mem_of_mem_parts hpart hc
    rw [hcut]
    generalize parts inner = cut at hheld
    induction cut with
    | nil => exact hafter
    | cons part cut ih =>
      obtain ⟨hpart, hcut⟩ := List.forall_mem_cons.mp hheld
      have hnone : '%' ∉ part ++ ['*'] := by
        rw [List.mem_append, not_or]
        exact ⟨fun hmem => hsign (hpart '%' hmem), by decide⟩
      have hkept : ∀ c ∈ part ++ ['*'], isBreak c = false :=
        List.forall_mem_append.mpr
          ⟨fun c hc => hbreaks c (hpart c hc), List.forall_mem_singleton.mpr rfl⟩
      have hfirst := (ih hcut).cons_extended true line hnone hkept nofun
      rwa [if_pos rfl, List.cons_append, List.append_assoc] at hfirst

private theorem exists_extended_of_scan (line : Nat) (t : Text) :
    ∃ next rest closed, scan line ('%' :: t) = next :: rest ∧ IsExtended closed next.text := by
  rw [scan, dif_pos rfl]
  simp only
  have hsign := sign_not_mem_enclosed t
  rcases extendedCommands_cases (enclosed t) (!(t.dropWhile (· != '%')).isEmpty) with
    hwhole | ⟨-, hlength, hcut⟩
  · rw [← enclosed, hwhole]
    exact ⟨_, _, _, rfl, enclosed t, hsign, rfl⟩
  · obtain ⟨part, cut, hparts⟩ := List.exists_cons_of_length_pos (Nat.zero_lt_of_lt hlength)
    rw [← enclosed, hcut, hparts]
    refine ⟨_, _, true, rfl, part ++ ['*'], ?_, by simp⟩
    rw [List.mem_append, not_or]
    refine ⟨fun hmem => hsign ?_, by decide⟩
    exact mem_of_mem_parts (hparts ▸ List.mem_cons_self) hmem

private theorem allShaped_scan (line : Nat) (t : Text) : AllShaped (scan line t) := by
  fun_induction scan line t with
  | case1 => exact .nil
  | case2 line t body rest inner ih =>
    refine allShaped_extendedCommands line (sign_not_mem_enclosed t)
      (fun c hc => isBreak_of_mem_enclosed hc) ?_ ih
    intro hopen
    have hrest : rest = [] := by simpa using hopen
    rw [hrest, List.drop_nil, scan]
  | case3 line t hsign ih => exact ih
  | case4 line c t hsign hbreak hblank ih => exact ih
  | case5 line c t hsign hbreak hblank block ih =>
    obtain ⟨hword, hend⟩ := isWord_readBlock [] line (c :: t) isWord_nil List.not_mem_nil
    refine allShaped_commands line hword (hend.imp_right ?_) ih
    rintro (hrest | ⟨rest, hrest⟩)
    · rw [hrest]
      exact .inl (by rw [scan])
    · rw [hrest]
      exact .inr (exists_extended_of_scan _ rest)

private theorem shaped_of_split {before after : List Token} {token : Token}
    (h : AllShaped (before ++ token :: after)) : Shaped token.text after := by
  induction before with
  | nil =>
    cases h with
    | cons hshaped _ => exact hshaped
  | cons _ before ih =>
    cases h with
    | cons _ hrest => exact ih hrest

/-- Each command of a file has the shape of a command in front of those that follow it. -/
theorem shaped_of_ofBytes (bytes : List UInt8) :
    ∀ before token after, ofBytes bytes = before ++ token :: after → Shaped token.text after := by
  intro before token after h
  have hall : AllShaped (ofBytes bytes) := allShaped_scan 1 (Text.ofUtf8 bytes)
  rw [h] at hall
  exact shaped_of_split hall

/-- A glued code, a data block without a star, a block of two commands, a comment with a percent
sign, and a percent sign at the end. -/
def raggedFile : List UInt8 :=
  "G01X1\nY1D01%FSLAX24Y24*\nMOMM*%G04 5%*X2%".toList.map fun c => UInt8.ofNat c.toNat

theorem shaped_of_ofBytes_raggedFile :
    ofBytes raggedFile =
      [⟨"G01*".toList, 1⟩] ++ ⟨"X1Y1D01".toList, 1⟩ ::
        [⟨"%FSLAX24Y24*%".toList, 2⟩, ⟨"%MOMM*%".toList, 2⟩, ⟨"G04 5%*".toList, 3⟩,
          ⟨"X2".toList, 3⟩, ⟨"%".toList, 3⟩] ∧
    Shaped "X1Y1D01".toList
      [⟨"%FSLAX24Y24*%".toList, 2⟩, ⟨"%MOMM*%".toList, 2⟩, ⟨"G04 5%*".toList, 3⟩,
        ⟨"X2".toList, 3⟩, ⟨"%".toList, 3⟩] := by
  have htokens : ofBytes raggedFile =
      [⟨"G01*".toList, 1⟩] ++ ⟨"X1Y1D01".toList, 1⟩ ::
        [⟨"%FSLAX24Y24*%".toList, 2⟩, ⟨"%MOMM*%".toList, 2⟩, ⟨"G04 5%*".toList, 3⟩,
          ⟨"X2".toList, 3⟩, ⟨"%".toList, 3⟩] := by
    unfold raggedFile
    -- a literal is the list of its characters, and its bytes need not be decoded
    repeat rw [String.toList_ofList]
    decide +kernel
  exact ⟨htokens, shaped_of_ofBytes raggedFile _ _ _ htokens⟩

end Gerber.Token
