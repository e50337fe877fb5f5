import Gerber.Proofs.Text.Utf8
import Gerber.Proofs.Token.Reading
import Gerber.Proofs.Token.Shape

/-!
# Codes glued to what follows

A code in front of a command is a command of its own, with or without a star behind it.  There is
one exception: whether a percent sign belongs to a comment is decided on all that has been read of
the block, so that a comment behind a glued code ends at its first percent sign.
-/

namespace Gerber.Token

open Text

/-- Whether a command starts at once and cannot lengthen or end a code in front of it. -/
def StartsAfterCode (t : Text) : Prop :=
  ∃ c rest, t = c :: rest ∧ c.isDigit = false ∧ isEnd c = false ∧ isGap c = false

/-- Whether a text starts with a comment that holds a percent sign. -/
def SignInComment (t : Text) : Prop :=
  isComment (shown (stretch t)) = true ∧ (onward t).head? = some '%'

instance (t : Text) : Decidable (SignInComment t) := by
  unfold SignInComment
  infer_instance

private theorem isDigit_ne {c d : Char} (hc : c.isDigit = true) (hd : d.isDigit = false) :
    c ≠ d := by
  rintro rfl
  rw [hc] at hd
  cases hd

section

variable {code tail : Text} {c : Char}

/-- Nothing in a code ends it, and nothing in it is left out. -/
theorem IsCode.plain (h : IsCode code) :
    (∀ d ∈ code, isEnd d = false) ∧ shown code = code ∧
      ∀ d ∈ code, d.toNat < 128 := by
  obtain ⟨digits, rfl, -, -, hdigits⟩ := h
  have hchars : ∀ d ∈ 'G' :: digits, d = 'G' ∨ d.isDigit = true := by
    intro d hd
    exact (List.mem_cons.mp hd).imp_right (hdigits d)
  refine ⟨?_, ?_, ?_⟩
  · intro d hd
    rcases hchars d hd with rfl | hdigit
    · rfl
    · simp [isEnd, isDigit_ne hdigit (d := '*') rfl, isDigit_ne hdigit (d := '%') rfl]
  · apply List.filter_eq_self.mpr
    intro d hd
    rcases hchars d hd with rfl | hdigit
    · rfl
    · simp [isBreak, isDigit_ne hdigit (d := '\n') rfl, isDigit_ne hdigit (d := '\r') rfl]
  · intro d hd
    rcases hchars d hd with rfl | hdigit
    · decide
    · rw [Char.isDigit, Bool.and_eq_true, decide_eq_true_eq, decide_eq_true_eq] at hdigit
      have hle := UInt32.le_iff_toNat_le.mp hdigit.2
      exact Nat.lt_of_le_of_lt hle (by decide)

/-- A code that is no comment code makes no comment of what follows it. -/
theorem IsCode.isComment_append (h : IsCode code) (hshort : code ≠ ['G', '4'])
    (hlong : code ≠ ['G', '0', '4']) (hc : c.isDigit = false) :
    Token.isComment (code ++ c :: tail) = false := by
  obtain ⟨digits, rfl, hne, hlength, hdigits⟩ := h
  match digits with
  | [] => exact absurd rfl hne
  | [d] =>
    have hd : d ≠ '4' := by
      rintro rfl
      exact hshort rfl
    have hfour : c ≠ '4' := (isDigit_ne rfl hc).symm
    simp [isComment_cons_cons_cons, hd, hfour]
  | [d, e] =>
    have he : e.isDigit = true := hdigits e (by simp)
    have hpair : d = '0' → e ≠ '4' := by
      rintro rfl rfl
      exact hlong rfl
    simpa [isComment_cons_cons_cons, he] using hpair
  | _ :: _ :: _ :: digits => simp at hlength

private theorem IsCode.splitCode?_append (h : IsCode code) (hc : c.isDigit = false)
    (hstar : c ≠ '*') : splitCode? (code ++ c :: tail) = some (code, c :: tail) := by
  obtain ⟨digits, rfl, hne, hlength, hdigits⟩ := h
  have htake : (digits ++ c :: tail).takeWhile Char.isDigit = digits := by
    rw [List.takeWhile_append_of_pos hdigits, List.takeWhile_cons_of_neg (by simp [hc]),
      List.append_nil]
  have hdrop : (digits ++ c :: tail).dropWhile Char.isDigit = c :: tail := by
    rw [List.dropWhile_append_of_pos hdigits, List.dropWhile_cons_of_neg (by simp [hc])]
  have hlong : ¬ 2 < digits.length := Nat.not_lt.mpr hlength
  simp [splitCode?, htake, hdrop, hne, hlong, hstar]

private theorem commands_glued (h : IsCode code) (hc : c.isDigit = false) (hstar : c ≠ '*')
    (hcomment : isComment (code ++ c :: tail) = false) :
    commands (code ++ c :: tail) = (code ++ ['*']) :: commands (c :: tail) := by
  rw [commands, hcomment, if_neg Bool.false_ne_true]
  split
  · rename_i heq
    rw [h.splitCode?_append hc hstar] at heq
    cases heq
    rfl
  · rename_i heq
    rw [h.splitCode?_append hc hstar] at heq
    cases heq

private theorem commands_code (h : IsCode code) : commands (code ++ ['*']) = [code ++ ['*']] := by
  by_cases hcomment : isComment (code ++ ['*']) = true
  · exact commands_of_comment hcomment
  · have hnone := h.isBlock.unglued (Bool.eq_false_iff.mpr hcomment)
    obtain ⟨digits, rfl, hne, -⟩ := h
    rw [commands, if_neg hcomment]
    split
    · rename_i heq
      rw [hnone] at heq
      cases heq
    · simp

private theorem texts_scan_code (h : IsCode code) (t : Text) :
    texts (scan 1 (code ++ t)) = textsFrom code t := by
  obtain ⟨hends, hshown, -⟩ := h.plain
  have hread := textsFrom_append [] hends t
  rw [hshown, List.nil_append] at hread
  rw [← hread]
  obtain ⟨digits, rfl, -⟩ := h
  exact texts_scan_block (by decide) (by decide) 1 (digits ++ t)

private theorem StartsAfterCode.texts_scan {t : Text} (h : StartsAfterCode t) :
    texts (scan 1 t) = textsFrom (shown (stretch t)) (onward t) := by
  have hstretch := textsFrom_stretch [] t
  rw [List.nil_append] at hstretch
  rw [← hstretch]
  obtain ⟨c, rest, rfl, -, hend, hgap⟩ := h
  have hsign : c ≠ '%' := by
    rintro rfl
    exact absurd hend (by decide)
  exact texts_scan_block hsign hgap 1 rest

private theorem StartsAfterCode.shown_stretch {t : Text} (h : StartsAfterCode t) :
    ∃ c rest, shown (stretch t) = c :: rest ∧ c.isDigit = false ∧ c ≠ '*' := by
  obtain ⟨c, rest, rfl, hdigit, hend, hgap⟩ := h
  refine ⟨c, shown (stretch rest), ?_, hdigit, ?_⟩
  · rw [stretch, List.takeWhile_cons_of_pos (by simp [hend]),
      shown_cons_of_not_break (isBreak_of_isGap hgap), ← stretch]
  · rintro rfl
    exact absurd hend (by decide)

private theorem textsFrom_of_signInComment {t : Text} (h : SignInComment t) :
    ∃ more rest, textsFrom (shown (stretch t)) (onward t) =
      (shown (stretch t) ++ '%' :: more) :: rest := by
  obtain ⟨hcomment, hhead⟩ := h
  obtain ⟨tail, htail⟩ : ∃ tail, onward t = '%' :: tail := by
    cases honward : onward t with
    | nil => simp [honward] at hhead
    | cons d tail =>
      rw [honward, List.head?_cons, Option.some.injEq] at hhead
      exact ⟨tail, by rw [hhead]⟩
  obtain ⟨source, -, hread, -⟩ := exists_source ('%' :: (shown (stretch t)).reverse) 1 tail
  rw [List.reverse_cons, List.reverse_reverse] at hread
  have hwhole : isComment (shown (stretch t) ++ ['%'] ++ shown source) = true :=
    isComment_append (isComment_concat hcomment (by decide)) (by simp) _
  rw [htail, textsFrom, readBlock_sign_of_comment (by rwa [List.reverse_reverse]), hread,
    commands_of_comment hwhole, List.append_assoc]
  exact ⟨shown source, _, rfl⟩

private theorem texts_glued_iff {t : Text} (h : IsCode code) (hshort : code ≠ ['G', '4'])
    (hlong : code ≠ ['G', '0', '4']) (ht : StartsAfterCode t) :
    texts (scan 1 (code ++ t)) = (code ++ ['*']) :: texts (scan 1 t) ↔ ¬ SignInComment t := by
  obtain ⟨c, lead, hlead, hdigit, hstar⟩ := ht.shown_stretch
  have hcomment (tail : Text) : isComment (code ++ shown (stretch t) ++ tail) = false := by
    rw [List.append_assoc, hlead, List.cons_append]
    exact h.isComment_append hshort hlong hdigit
  have hcommands (tail : Text) : commands (code ++ shown (stretch t) ++ tail) =
      (code ++ ['*']) :: commands (shown (stretch t) ++ tail) := by
    have htail := hcomment tail
    rw [List.append_assoc, hlead, List.cons_append] at htail ⊢
    exact commands_glued h hdigit hstar htail
  obtain ⟨star, rest, hstars, hend⟩ := textsFrom_onward t
  have hglued := hend (code ++ shown (stretch t)) fun _ => by simpa using hcomment []
  rw [hcommands] at hglued
  rw [texts_scan_code h, textsFrom_stretch, ht.texts_scan, hglued]
  constructor
  · intro heq hsign
    obtain ⟨more, tail, hmore⟩ := textsFrom_of_signInComment hsign
    have hwhole : isComment (shown (stretch t) ++ star) = true := by
      rcases hstars with rfl | rfl
      · rw [List.append_nil]
        exact hsign.1
      · exact isComment_concat hsign.1 (by decide)
    rw [hmore, commands_of_comment hwhole] at heq
    simp only [List.cons_append, List.nil_append, List.cons.injEq, true_and] at heq
    have hstar := List.append_cancel_left heq.1
    rcases hstars with rfl | rfl
    · cases hstar
    · cases hstar
  · intro hno
    rw [hend (shown (stretch t)) fun hhead => Bool.eq_false_iff.mpr fun hlead => hno ⟨hlead, hhead⟩,
      List.cons_append]

end

/-- In front of a command at the start of a file, a code with its star is a command by itself.  The
star can be left out if and only if the command is no comment that holds a percent sign. -/
theorem texts_of_glued (code : Text) (rest : List UInt8) (h : IsCode code)
    (hshort : code ≠ ['G', '4']) (hlong : code ≠ ['G', '0', '4'])
    (hrest : StartsAfterCode (ofUtf8 rest)) :
    texts (ofBytes (ascii (code ++ ['*']) ++ rest)) = (code ++ ['*']) :: texts (ofBytes rest) ∧
      (texts (ofBytes (ascii code ++ rest)) = texts (ofBytes (ascii (code ++ ['*']) ++ rest)) ↔
        ¬ SignInComment (ofUtf8 rest)) := by
  obtain ⟨-, -, hascii⟩ := h.plain
  have hstar : ∀ c ∈ code ++ ['*'], c.toNat < 128 :=
    List.forall_mem_append.mpr ⟨hascii, List.forall_mem_singleton.mpr (by decide)⟩
  have hterminated : texts (ofBytes (ascii (code ++ ['*']) ++ rest)) =
      (code ++ ['*']) :: texts (ofBytes rest) := by
    rw [ofBytes, ofUtf8_ascii_append hstar, List.append_assoc, List.singleton_append]
    rw [texts_scan_code h, textsFrom_star, commands_code h]
    rfl
  refine ⟨hterminated, ?_⟩
  rw [hterminated, ofBytes, ofUtf8_ascii_append hascii]
  exact texts_glued_iff h hshort hlong hrest

/-- An arc in a new quadrant mode, a change of polarity and a comment. -/
def gluedArc : List UInt8 := ascii "G03X0Y0D03*\n%LPC*%\nG04 5%*".toList

theorem texts_of_glued_arc :
    (IsCode ['G', '7', '5'] ∧ ['G', '7', '5'] ≠ ['G', '4'] ∧ ['G', '7', '5'] ≠ ['G', '0', '4'] ∧
      StartsAfterCode (ofUtf8 gluedArc)) ∧
    texts (ofBytes (ascii ['G', '7', '5', '*'] ++ gluedArc)) =
      ['G', '7', '5', '*'] :: texts (ofBytes gluedArc) ∧
    (texts (ofBytes (ascii ['G', '7', '5'] ++ gluedArc)) =
        texts (ofBytes (ascii ['G', '7', '5', '*'] ++ gluedArc)) ↔
      ¬ SignInComment (ofUtf8 gluedArc)) ∧
    ¬ SignInComment (ofUtf8 gluedArc) := by
  have hcode : IsCode ['G', '7', '5'] :=
    ⟨['7', '5'], rfl, by decide, by decide, List.all_eq_true.mp rfl⟩
  obtain ⟨htext, hsign⟩ : ofUtf8 gluedArc = "G03X0Y0D03*\n%LPC*%\nG04 5%*".toList ∧
      ¬ SignInComment (ofUtf8 gluedArc) := by
    decide +kernel
  have hstart : StartsAfterCode (ofUtf8 gluedArc) := by
    rw [htext, String.toList_ofList]
    exact ⟨_, _, rfl, by decide, by decide, by decide⟩
  have hglued := texts_of_glued ['G', '7', '5'] gluedArc hcode (by decide) (by decide) hstart
  exact ⟨⟨hcode, by decide, by decide, hstart⟩, hglued.1, hglued.2, hsign⟩

def copperComment : List UInt8 := ascii "G04 50% copper*\nD10*".toList

/-- A code cannot be glued to each command. -/
theorem not_always_gluable :
    ¬ ∀ (code : Text) (rest : List UInt8), IsCode code → code ≠ ['G', '4'] →
      code ≠ ['G', '0', '4'] → StartsAfterCode (ofUtf8 rest) →
        texts (ofBytes (ascii code ++ rest)) = texts (ofBytes (ascii (code ++ ['*']) ++ rest)) := by
  intro h
  have hcode : IsCode ['G', '0', '1'] :=
    ⟨['0', '1'], rfl, by decide, by decide, List.all_eq_true.mp rfl⟩
  obtain ⟨htext, hdiffer⟩ : ofUtf8 copperComment = "G04 50% copper*\nD10*".toList ∧
      texts (ofBytes (ascii ['G', '0', '1'] ++ copperComment)) ≠
        texts (ofBytes (ascii (['G', '0', '1'] ++ ['*']) ++ copperComment)) := by
    decide +kernel
  have hstart : StartsAfterCode (ofUtf8 copperComment) := by
    rw [htext, String.toList_ofList]
    exact ⟨_, _, rfl, by decide, by decide, by decide⟩
  exact hdiffer (h ['G', '0', '1'] copperComment hcode (by decide) (by decide) hstart)

end Gerber.Token
