import Gerber.Proofs.Text.Utf8
import Gerber.Proofs.Token.Reading
import Mathlib.Data.List.Induction

/-!
# White space between and inside data blocks

What a position of a text lies in can be told from the characters in front of it, one after the
other.  White space at a position between commands is of no account.  Inside a data block that is
no comment only line breaks are.
-/

namespace Gerber.Token

open Text

/-- What a position lies in: between commands, in an extended block, or in a data block, of which
`word` stands in front of it. -/
inductive Position where
  | between
  | extended
  | block (word : Text)
deriving DecidableEq

namespace Position

/-- The position after one more character. -/
def next : Position → Char → Position
  | between, c =>
    if c = '%' then extended
    else if isGap c || c = '*' then between
    else block [c]
  | extended, c => if c = '%' then between else extended
  | block word, c =>
    if c = '%' && !isComment word then extended
    else if c = '*' then between
    else if isBreak c then block word
    else block (word ++ [c])

end Position

def position (before : Text) : Position := before.foldl Position.next .between

/-- The commands of a text that goes on are those so far and those from there on. -/
def CutsAt (before after : Text) : Prop :=
  ∀ line, scan line (before ++ after) =
    scan line before ++ scan (line + before.count '\n') after

/-- How the position at the end of a text came about: the text can be cut there, or where the block
begins that the position lies in. -/
inductive Reached : Text → Position → Prop
  | between {before : Text} : (∀ after, CutsAt before after) → Reached before .between
  | extended {before body : Text} :
      (∀ after, CutsAt before ('%' :: after)) → (∀ c ∈ body, c ≠ '%') →
        Reached (before ++ '%' :: body) .extended
  | block {before raw word : Text} {c : Char} :
      (∀ after, CutsAt before after) → c ≠ '%' → isGap c = false →
      (∀ line after, readBlock [] line (c :: raw ++ after) =
        readBlock (c :: word).reverse (line + (c :: raw).count '\n') after) →
        Reached (before ++ c :: raw) (.block (c :: word))

section

variable {before after : Text}

theorem CutsAt.append {middle : Text} (h : CutsAt before (middle ++ after))
    (h' : CutsAt before middle) (hmiddle : CutsAt middle after) :
    CutsAt (before ++ middle) after := by
  intro line
  rw [List.append_assoc, h, h', hmiddle, List.append_assoc, List.count_append, Nat.add_assoc]

private theorem cutsAt_nil (after : Text) : CutsAt [] after := by
  intro line
  simp

private theorem cutsAt_gap {c : Char} (h : isGap c = true) (after : Text) : CutsAt [c] after := by
  intro line
  rw [List.singleton_append, scan_gap h, scan_gap h, scan_nil, List.nil_append]

private theorem cutsAt_extended {body : Text} (h : ∀ c ∈ body, c ≠ '%') (after : Text) :
    CutsAt ('%' :: body ++ ['%']) after := by
  have hbody : ∀ c ∈ body, (c != '%') = true := fun c hc => by simpa using h c hc
  have htake (rest : Text) : (body ++ '%' :: rest).takeWhile (· != '%') = body := by
    rw [List.takeWhile_append_of_pos hbody]
    simp
  have hdrop (rest : Text) : (body ++ '%' :: rest).dropWhile (· != '%') = '%' :: rest := by
    rw [List.dropWhile_append_of_pos hbody]
    simp
  intro line
  rw [List.cons_append, List.cons_append, List.append_assoc, List.singleton_append, scan_sign,
    scan_sign]
  simp [enclosed, htake, hdrop]

private theorem cutsAt_block {c : Char} {raw w : Text} (hsign : c ≠ '%') (hgap : isGap c = false)
    (hread : ∀ rest, rest = after ∨ rest = [] → ∀ line,
      readBlock [] line (c :: raw ++ rest) = (w, line + (c :: raw).count '\n', rest)) :
    CutsAt (c :: raw) after := by
  intro line
  have hwhole := hread after (.inl rfl) line
  have hnil := hread [] (.inr rfl) line
  rw [List.append_nil] at hnil
  rw [List.cons_append] at hwhole ⊢
  rw [scan_block hsign hgap, scan_block hsign hgap, hwhole, hnil, scan_nil, List.append_nil]

end

private theorem reached_between {before : Text} (hcut : ∀ after, CutsAt before after) (d : Char) :
    Reached (before ++ [d]) (Position.between.next d) := by
  rw [Position.next]
  split
  case isTrue hsign =>
    subst hsign
    exact .extended (fun after => hcut _) (List.forall_mem_nil _)
  case isFalse hsign =>
    split
    case isTrue hgap =>
      refine .between fun after => .append (hcut _) (hcut _) ?_
      rw [Bool.or_eq_true, decide_eq_true_eq] at hgap
      rcases hgap with hgap | rfl
      · exact cutsAt_gap hgap after
      · exact cutsAt_block (w := ['*']) hsign (by decide) fun rest _ line => rfl
    case isFalse hblock =>
      rw [Bool.or_eq_true, not_or, decide_eq_true_eq, Bool.not_eq_true] at hblock
      have hend : ∀ c ∈ [d], isEnd c = false := by simp [isEnd, hsign, hblock.2]
      have hshown : shown [d] = [d] := shown_cons_of_not_break (isBreak_of_isGap hblock.1) []
      have hread (line : Nat) (after : Text) : readBlock [] line ([d] ++ after) =
          readBlock [d].reverse (line + [d].count '\n') after := by
        rw [readBlock_append [] line hend, hshown, List.append_nil]
      exact .block hcut hsign hblock.1 hread

private theorem reached_extended {before body : Text} (hcut : ∀ after, CutsAt before ('%' :: after))
    (hbody : ∀ c ∈ body, c ≠ '%') (d : Char) :
    Reached (before ++ '%' :: body ++ [d]) (Position.extended.next d) := by
  rw [Position.next, List.append_assoc, List.cons_append]
  split
  case isTrue hsign =>
    subst hsign
    exact .between fun after => .append (hcut _) (hcut _) (cutsAt_extended hbody after)
  case isFalse hsign =>
    refine .extended hcut (List.forall_mem_append.mpr ⟨hbody, ?_⟩)
    exact List.forall_mem_singleton.mpr hsign

private theorem reached_block {before raw word : Text} {c : Char}
    (hcut : ∀ after, CutsAt before after) (hsign : c ≠ '%') (hgap : isGap c = false)
    (hread : ∀ line after, readBlock [] line (c :: raw ++ after) =
      readBlock (c :: word).reverse (line + (c :: raw).count '\n') after) (d : Char) :
    Reached (before ++ c :: raw ++ [d]) ((Position.block (c :: word)).next d) := by
  rw [Position.next]
  split
  case isTrue hclose =>
    rw [Bool.and_eq_true, decide_eq_true_eq, Bool.not_eq_true'] at hclose
    obtain ⟨rfl, hcomment⟩ := hclose
    refine .extended (fun after => .append (hcut _) (hcut _) ?_) (List.forall_mem_nil _)
    refine cutsAt_block (w := c :: word) hsign hgap ?_
    rintro rest (rfl | rfl) line
    · rw [hread, readBlock_sign (by rwa [List.reverse_reverse]), List.reverse_reverse]
    · rw [hread, readBlock, List.reverse_reverse]
  case isFalse hopen =>
    rw [List.append_assoc, List.cons_append]
    split
    case isTrue hstar =>
      subst hstar
      refine .between fun after => .append (hcut _) (hcut _) ?_
      refine cutsAt_block (w := c :: word ++ ['*']) hsign hgap fun rest _ line => ?_
      rw [← List.cons_append, List.append_assoc, List.singleton_append, hread, readBlock_star,
        List.reverse_reverse, List.count_append]
      rfl
    case isFalse hstar =>
      have hnext (line : Nat) (after : Text) : readBlock [] line (c :: (raw ++ [d]) ++ after) =
          readBlock ((shown [d]).reverse ++ (c :: word).reverse)
            (line + (c :: (raw ++ [d])).count '\n') after := by
        rw [← List.cons_append, List.append_assoc, hread, List.count_append, ← Nat.add_assoc]
        by_cases hd : d = '%'
        · -- a percent sign that does not end the block stands in a comment
          subst hd
          have hcomment : isComment (c :: word) = true := by simpa using hopen
          exact readBlock_sign_of_comment (by rwa [List.reverse_reverse]) _ after
        · exact readBlock_append _ _ (by simp [isEnd, hd, hstar]) after
      split
      case isTrue hbreak =>
        refine .block hcut hsign hgap fun line after => ?_
        rw [hnext, shown_cons_of_break hbreak]
        rfl
      case isFalse hkeep =>
        refine .block hcut hsign hgap fun line after => ?_
        rw [hnext, shown_cons_of_not_break (Bool.eq_false_iff.mpr hkeep)]
        simp

/-- One more character leads from what a position lies in to what the next one lies in. -/
theorem Reached.next {before : Text} {p : Position} (h : Reached before p) (d : Char) :
    Reached (before ++ [d]) (p.next d) := by
  cases h with
  | between hcut => exact reached_between hcut d
  | extended hcut hbody => exact reached_extended hcut hbody d
  | block hcut hsign hgap hread => exact reached_block hcut hsign hgap hread d

private theorem reached_position (before : Text) : Reached before (position before) := by
  induction before using List.reverseRecOn with
  | nil => exact .between cutsAt_nil
  | append_singleton before c ih =>
    rw [position, List.foldl_append]
    exact ih.next c

/-- The white space that is put into files, and zeros. -/
def spacing : Text := [' ', '\t', '\r', '\n', '\x00']

/-- Whether the position between two texts lies in a data block that is no comment. -/
def InData (before after : Text) : Prop :=
  ∃ word, position before = .block word ∧ isComment (word ++ shown (stretch after)) = false

section

variable {before after gap word : Text}

private theorem spacing_cases {c : Char} (h : c ∈ spacing) :
    isGap c = true ∧ isEnd c = false ∧ c.isDigit = false ∧ c.toNat < 128 := by
  simp only [spacing, List.mem_cons, List.not_mem_nil, or_false] at h
  rcases h with rfl | rfl | rfl | rfl | rfl <;> decide

private theorem texts_scan_gap (h : ∀ c ∈ gap, isGap c = true) (line line' : Nat) (after : Text) :
    texts (scan line (gap ++ after)) = texts (scan line' after) := by
  induction gap generalizing line with
  | nil => exact texts_scan_line line line' after
  | cons c gap ih =>
    obtain ⟨hc, hgap⟩ := List.forall_mem_cons.mp h
    rw [List.cons_append, scan_gap hc]
    exact ih hgap _

private theorem getLast?_of_between (h : position before = .between) :
    before.getLast? ≠ some replacement := by
  intro hlast
  obtain ⟨front, rfl⟩ := List.getLast?_eq_some_iff.mp hlast
  have hnext : (position front).next replacement = .between := by
    rw [← h, position, position, List.foldl_append]
    rfl
  cases hfront : position front with
  | between =>
    rw [hfront] at hnext
    exact absurd hnext (by decide)
  | extended =>
    rw [hfront] at hnext
    exact absurd hnext (by decide)
  | block word =>
    rw [hfront, Position.next, if_neg (by simp [replacement]), if_neg (by decide),
      if_neg (by decide)] at hnext
    cases hnext

private theorem texts_of_between (h : position before = .between) (after : Text) :
    texts (scan 1 (before ++ after)) = texts (scan 1 before) ++ texts (scan 1 after) := by
  have hreached := reached_position before
  rw [h] at hreached
  cases hreached with
  | between hcut => rw [hcut after 1, texts_append, texts_scan_line _ 1 after]

private theorem texts_of_block (h : position before = .block word) :
    ∃ c tail front, word = c :: tail ∧
      ∀ after, texts (scan 1 (before ++ after)) = front ++ textsFrom word after := by
  have hreached := reached_position before
  rw [h] at hreached
  cases hreached with
  | @block before raw word c hcut hsign hgap hread =>
    refine ⟨c, word, texts (scan 1 before), rfl, fun after => ?_⟩
    have hblock := texts_scan_block hsign hgap 1 (raw ++ after)
    rw [textsFrom, List.reverse_nil, ← List.cons_append, hread, textsFrom_line] at hblock
    rw [List.append_assoc, hcut, texts_append, texts_scan_line _ 1 (c :: raw ++ after), hblock]

private theorem eq_of_isComment_spaced {c s : Char} {tail more rest : Text} (hs : s.isDigit = false)
    (hplain : isComment (c :: tail ++ rest) = false)
    (hspaced : isComment (c :: tail ++ s :: more) = true) :
    c :: tail = ['G', '4'] ∧ ∃ d others, rest = d :: others ∧ d.isDigit = true := by
  match tail with
  | [] =>
    unfold isComment at hspaced
    split at hspaced
    · rename_i heq
      cases heq
      cases hs
    · rename_i heq
      cases heq
      cases hs
    · rename_i heq
      cases heq
      cases hs
    · cases hspaced
  | [b] =>
    have hword : c :: [b] = ['G', '4'] := by
      unfold isComment at hspaced
      split at hspaced
      · rename_i heq
        cases heq
        cases hs
      · rename_i heq
        cases heq
        rfl
      · rename_i heq
        cases heq
      · cases hspaced
    cases hword
    cases rest with
    | nil => cases hplain
    | cons d others => exact ⟨rfl, d, others, rfl, by simpa [isComment] using hplain⟩
  | a :: b :: tail =>
    -- three characters decide whether a block is a comment
    have hsame : isComment (c :: a :: b :: tail ++ s :: more) =
        isComment (c :: a :: b :: tail ++ rest) := by
      simp only [List.cons_append, isComment_cons_cons_cons]
    rw [hsame, hplain] at hspaced
    cases hspaced

private theorem commands_of_number {d : Char} (hd : d.isDigit = true) (rest : Text) :
    ∃ more others, commands ('G' :: '4' :: d :: rest) = ('G' :: '4' :: d :: more) :: others := by
  have hcomment : isComment ('G' :: '4' :: d :: rest) = false := by simp [isComment, hd]
  rw [commands, hcomment, if_neg Bool.false_ne_true]
  split
  · rename_i code tail hsplit
    obtain ⟨⟨digits, rfl, hne, hlength, -⟩, ⟨e, tail, rfl, he, -⟩, hwhole⟩ :=
      isCode_and_goesOn_of_splitCode? hsplit
    match digits with
    | [] => exact absurd rfl hne
    | [a] =>
      cases hwhole
      rw [hd] at he
      cases he
    | [a, b] =>
      cases hwhole
      exact ⟨['*'], _, rfl⟩
    | _ :: _ :: _ :: _ => simp at hlength
  · exact ⟨rest, [], by simp⟩

/-- White space inside a data block that is no comment is of no account if and only if it is line
breaks. -/
private theorem textsFrom_spaced_iff {c : Char} {tail : Text} (hgap : ∀ c ∈ gap, c ∈ spacing)
    (hdata : isComment (c :: tail ++ shown (stretch after)) = false) :
    textsFrom (c :: tail) (gap ++ after) = textsFrom (c :: tail) after ↔
      ∀ c ∈ gap, isBreak c = true := by
  rw [textsFrom_append _ fun d hd => (spacing_cases (hgap d hd)).2.1]
  have hnone : shown gap = [] ↔ ∀ c ∈ gap, isBreak c = true := by simp [shown]
  rw [← hnone]
  refine ⟨fun heq => ?_, fun hshown => by rw [hshown, List.append_nil]⟩
  cases hshown : shown gap with
  | nil => rfl
  | cons s more =>
    exfalso
    have hs : s ∈ spacing := by
      have hmem : s ∈ shown gap := by simp [hshown]
      exact hgap s (List.mem_of_mem_filter hmem)
    obtain ⟨-, hsEnd, hsDigit, -⟩ := spacing_cases hs
    obtain ⟨star, rest, -, hend⟩ := textsFrom_onward after
    rw [hshown, textsFrom_stretch _ after, textsFrom_stretch (c :: tail) after,
      hend (c :: tail ++ shown (stretch after)) fun _ => hdata, List.append_assoc (c :: tail),
      List.cons_append (a := s)] at heq
    by_cases hspaced : isComment (c :: tail ++ s :: (more ++ shown (stretch after))) = true
    · -- the block has become a comment, and its third character is no longer a digit
      obtain ⟨hword, d, others, hrest, hd⟩ := eq_of_isComment_spaced hsDigit hdata hspaced
      obtain ⟨numbered, others', hnumber⟩ := commands_of_number hd (others ++ star)
      rw [hword, hrest] at heq hspaced
      obtain ⟨commented, rest', hcomment⟩ := textsFrom_of_comment hspaced (onward after)
      have hheads : ('G' :: '4' :: s :: commented) :: rest' =
          ('G' :: '4' :: d :: numbered) :: others' ++ rest := by
        rw [← hcomment, ← hnumber]
        exact heq
      simp only [List.cons_append, List.cons.injEq, true_and] at hheads
      rw [← hheads.1.1, hsDigit] at hd
      cases hd
    · -- the block ends where it did, and it has one character more
      rw [hend _ fun _ => Bool.eq_false_iff.mpr hspaced] at heq
      have hcommands := List.append_cancel_right heq
      have hlength := congrArg (fun texts => (texts.flatten.filter (· != '*')).length) hcommands
      have hkept : (s != '*') = true := by
        rw [isEnd, Bool.or_eq_false_iff] at hsEnd
        simpa using hsEnd.1
      simp only [filter_commands (p := (· != '*')) rfl, List.filter_append, List.length_append,
        List.filter_cons_of_pos (p := (· != '*')) hkept, List.length_cons] at hlength
      omega

end

/-- White space put into a file, where commands meet or inside a data block that is no comment:
between commands it is of no account, and between two characters of a data block it is of none if
and only if it is line breaks. -/
theorem texts_of_spaced (before after : List UInt8) (gap : Text) (hgap : ∀ c ∈ gap, c ∈ spacing) :
    (position (ofUtf8 before) = .between →
      texts (ofBytes (before ++ ascii gap ++ after)) = texts (ofBytes (before ++ after))) ∧
    (InData (ofUtf8 before) (ofUtf8 after) →
      ofUtf8 (before ++ after) = ofUtf8 before ++ ofUtf8 after →
      (texts (ofBytes (before ++ ascii gap ++ after)) = texts (ofBytes (before ++ after)) ↔
        ∀ c ∈ gap, isBreak c = true)) := by
  have hspaced (hchars : ofUtf8 (before ++ after) = ofUtf8 before ++ ofUtf8 after) :
      ofUtf8 (before ++ ascii gap ++ after) = ofUtf8 before ++ (gap ++ ofUtf8 after) := by
    rw [← List.append_assoc]
    by_cases hne : gap = []
    · subst hne
      rw [ascii, List.map_nil, List.append_nil, List.append_nil, hchars]
    · exact ofUtf8_append_ascii_append (fun c hc => (spacing_cases (hgap c hc)).2.2.2) hne _ _
  constructor
  · intro hbetween
    have hchars := (ofUtf8_append_or before after).resolve_right (getLast?_of_between hbetween)
    rw [ofBytes, ofBytes, hspaced hchars, hchars, texts_of_between hbetween,
      texts_of_between hbetween, texts_scan_gap (fun c hc => (spacing_cases (hgap c hc)).1) 1 1]
  · rintro ⟨word, hblock, hdata⟩ hchars
    obtain ⟨c, tail, front, rfl, hfront⟩ := texts_of_block hblock
    rw [ofBytes, ofBytes, hspaced hchars, hchars, hfront, hfront, List.append_cancel_left_eq]
    exact textsFrom_spaced_iff hgap hdata

/-- Two data blocks on two lines, with a glued code and a line break in the second. -/
def spacedBlocks : List UInt8 := ascii "D10*\nG01X1\nY2D01*".toList

theorem texts_of_spaced_blocks :
    (∀ c ∈ spacing, c ∈ spacing) ∧
    (position (ofUtf8 (spacedBlocks.take 4)) = .between ∧
      texts (ofBytes (spacedBlocks.take 4 ++ ascii spacing ++ spacedBlocks.drop 4)) =
        texts (ofBytes spacedBlocks)) ∧
    (InData (ofUtf8 (spacedBlocks.take 8)) (ofUtf8 (spacedBlocks.drop 8)) ∧
      texts (ofBytes (spacedBlocks.take 8 ++ ascii ['\r', '\n'] ++ spacedBlocks.drop 8)) =
        texts (ofBytes spacedBlocks)) := by
  have hmeet := texts_of_spaced (spacedBlocks.take 4) (spacedBlocks.drop 4) spacing
    fun c hc => hc
  have hinside := texts_of_spaced (spacedBlocks.take 8) (spacedBlocks.drop 8) ['\r', '\n']
    (by simp [spacing])
  rw [List.take_append_drop] at hmeet hinside
  obtain ⟨hbetween, hblock, hplain, hchars⟩ :
      position (ofUtf8 (spacedBlocks.take 4)) = .between ∧
      position (ofUtf8 (spacedBlocks.take 8)) = .block "G01".toList ∧
      isComment ("G01".toList ++ shown (stretch (ofUtf8 (spacedBlocks.drop 8)))) = false ∧
      ofUtf8 spacedBlocks = ofUtf8 (spacedBlocks.take 8) ++ ofUtf8 (spacedBlocks.drop 8) := by
    decide +kernel
  have hdata : InData (ofUtf8 (spacedBlocks.take 8)) (ofUtf8 (spacedBlocks.drop 8)) :=
    ⟨"G01".toList, hblock, hplain⟩
  have hbreaks : ∀ c ∈ ['\r', '\n'], isBreak c = true := List.all_eq_true.mp rfl
  exact ⟨fun c hc => hc, ⟨hbetween, hmeet.1 hbetween⟩, hdata,
    (hinside.2 hdata hchars).mpr hbreaks⟩

/-- White space inside a data block counts: behind a glued code it becomes part of the next
command. -/
theorem not_always_spaceable :
    ¬ ∀ (before after : List UInt8) (gap : Text), (∀ c ∈ gap, c ∈ spacing) →
      ofUtf8 (before ++ after) = ofUtf8 before ++ ofUtf8 after →
      position (ofUtf8 before) = .between ∨ InData (ofUtf8 before) (ofUtf8 after) →
        texts (ofBytes (before ++ ascii gap ++ after)) = texts (ofBytes (before ++ after)) := by
  intro h
  obtain ⟨hblock, hplain, hchars, hdiffer⟩ :
      position (ofUtf8 (ascii "G01".toList)) = .block "G01".toList ∧
      isComment ("G01".toList ++ shown (stretch (ofUtf8 (ascii "X1Y1D01*".toList)))) = false ∧
      ofUtf8 (ascii "G01".toList ++ ascii "X1Y1D01*".toList) =
        ofUtf8 (ascii "G01".toList) ++ ofUtf8 (ascii "X1Y1D01*".toList) ∧
      texts (ofBytes (ascii "G01".toList ++ ascii [' '] ++ ascii "X1Y1D01*".toList)) ≠
        texts (ofBytes (ascii "G01".toList ++ ascii "X1Y1D01*".toList)) := by
    decide +kernel
  have hdata : InData (ofUtf8 (ascii "G01".toList)) (ofUtf8 (ascii "X1Y1D01*".toList)) :=
    ⟨"G01".toList, hblock, hplain⟩
  exact hdiffer (h _ _ [' '] (by simp [spacing]) hchars (.inr hdata))

end Gerber.Token
