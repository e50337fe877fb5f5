import Gerber.ApertureMacro
import Gerber.Proofs.Except
import Gerber.Proofs.Text.Cuts
import Gerber.Proofs.Text.Digits
import Mathlib.Data.List.Forall2

/-!
# Lines of macros

The text of a macro command writes lines between its stars: comments, assignments and primitives.
What each of them writes is told here by its characters, without reading it.
-/

namespace Gerber

open Text

variable {α : Type} [Scalar α]

/-- What a text writes as the argument of a primitive or as the right side of an assignment. -/
inductive Modifier.Written : Text → Modifier α → Prop
  | blank {t : Text} : Trimmed t [] → Written t (.literal Scalar.zero)
  | literal {t inner : Text} {value : α} :
      Trimmed t inner → inner ≠ [] → Scalar.ofText? inner = some value →
        Written t (.literal value)
  | named {t digits : Text} :
      Trimmed t ('$' :: digits) → Scalar.ofText? (α := α) ('$' :: digits) = none → digits ≠ [] →
        (∀ c ∈ digits, c.isDigit = true) → Written t (.named digits)
  | expression {t inner : Text} :
      Trimmed t inner → inner ≠ [] → Scalar.ofText? (α := α) inner = none →
        (¬ ∃ digits, inner = '$' :: digits ∧ digits ≠ [] ∧ ∀ c ∈ digits, c.isDigit = true) →
          Written t (.expression inner)

/-- The codes of the primitives.  The vector line has two. -/
def Primitive.codes : List (Nat × Primitive) :=
  [(1, circle), (2, vectorLine), (20, vectorLine), (21, centerLine), (4, outline), (5, polygon),
    (6, moire), (7, thermal)]

namespace ApertureMacro

/-- A text that is set apart neither as a comment nor as an assignment, and its fields between
commas. -/
structure Line.HasFields (t first : Text) (others : List Text) : Prop where
  eq_intercalate : t = [','].intercalate (first :: others)
  comma_not_mem : ∀ field ∈ first :: others, ',' ∉ field
  ne_zero : t ≠ ['0']
  not_remark : ¬ ['0', ' '] <+: t
  not_assignment : ¬ ['$'] <+: t

/-- A field with a code of 32 bits: digits between blanks, with a plus sign in front or none. -/
def Line.HasCode (field : Text) (code : Nat) : Prop :=
  ∃ digits : Text, (Trimmed field digits ∨ Trimmed field ('+' :: digits)) ∧ digits ≠ [] ∧
    (∀ c ∈ digits, c.isDigit = true) ∧ Nat.ofDigitChars 10 digits 0 = code ∧ code < 2 ^ 32

/-- What a text without blanks at its ends writes as a line. -/
inductive Line.Written : Text → Line α → Prop
  | zero : Written ['0'] (.comment [])
  | remark {lead text : Text} :
      (∀ c ∈ lead, isBlank c = true) → (∀ c ∈ text.head?, isBlank c = false) →
        Written ('0' :: ' ' :: (lead ++ text)) (.comment text)
  | codeZero {t first : Text} {others : List Text} :
      HasFields t first others → HasCode first 0 → Written t (.comment ([','].intercalate others))
  | assignment {left right name : Text} {dollars : Nat} {value : Modifier α} :
      '=' ∉ left → Trimmed ('$' :: left) (List.replicate dollars '$' ++ name) → name ≠ [] →
        name.head? ≠ some '$' → value.Written right →
          Written ('$' :: left ++ '=' :: right) (.assignment name value)
  | primitive {t first : Text} {others : List Text} {code : Nat} {shape : Primitive}
      {modifiers : List (Modifier α)} :
      HasFields t first others → HasCode first code → (code, shape) ∈ Primitive.codes →
        List.Forall₂ Modifier.Written others modifiers →
          Written t (.primitive ⟨shape, modifiers⟩)

/-- The lines that the parts of a macro between stars write.  A blank part writes none. -/
inductive LinesWritten : List Text → List (Line α) → Prop
  | nil : LinesWritten [] []
  | blank {part : Text} {parts : List Text} {lines : List (Line α)} :
      Trimmed part [] → LinesWritten parts lines → LinesWritten (part :: parts) lines
  | cons {part t : Text} {parts : List Text} {line : Line α} {lines : List (Line α)} :
      Trimmed part t → t ≠ [] → line.Written t → LinesWritten parts lines →
        LinesWritten (part :: parts) (line :: lines)

/-- What a macro command writes: its name up to the first star, its lines up to a star each, and the
closing sign after the last of them. -/
def Writes (source : Text) (lines : List (Line α)) : Prop :=
  ∃ name parts rest,
    source = "%AM".toList ++ ['*'].intercalate (name :: (parts ++ ['%' :: rest])) ∧
      (∀ part ∈ name :: (parts ++ ['%' :: rest]), '*' ∉ part) ∧ LinesWritten parts lines

end ApertureMacro

omit [Scalar α] in
private theorem Modifier.ofWord_of_isDigits {digits : Text} (h : isDigits digits = true) :
    (ofWord ('$' :: digits) : Modifier α) = .named digits := by
  simp [ofWord, h]

omit [Scalar α] in
private theorem Modifier.ofWord_of_not_variable {t : Text}
    (h : ¬ ∃ digits, t = '$' :: digits ∧ isDigits digits = true) :
    (ofWord t : Modifier α) = .expression t := by
  unfold ofWord
  split
  · rename_i digits
    exact if_neg fun hdigits => h ⟨digits, rfl, hdigits⟩
  · rfl

private theorem Modifier.written_iff {t : Text} {modifier : Modifier α} :
    modifier.Written t ↔ ofText t = modifier := by
  constructor
  · intro h
    cases h with
    | blank htrim => simp [ofText, trimmed_iff.mp htrim]
    | literal htrim hne hvalue => simp [ofText, trimmed_iff.mp htrim, hne, hvalue]
    | named htrim hvalue hne hdigits =>
      have hword := ofWord_of_isDigits (α := α) (isDigits_iff.mpr ⟨hne, hdigits⟩)
      simp [ofText, trimmed_iff.mp htrim, hvalue, hword]
    | expression htrim hne hvalue hword =>
      simp only [← isDigits_iff] at hword
      simp [ofText, trimmed_iff.mp htrim, hne, hvalue, ofWord_of_not_variable hword]
  · rintro rfl
    obtain ⟨inner, htrim⟩ : ∃ inner, Trimmed t inner := ⟨trim t, trimmed_iff.mpr rfl⟩
    simp only [ofText, trimmed_iff.mp htrim, List.isEmpty_iff]
    split
    · rename_i hnil
      exact .blank (hnil ▸ htrim)
    · rename_i hne
      split
      · rename_i value hvalue
        exact .literal htrim hne hvalue
      · rename_i hvalue
        by_cases hword : ∃ digits, inner = '$' :: digits ∧ isDigits digits = true
        · obtain ⟨digits, rfl, hdigits⟩ := hword
          rw [ofWord_of_isDigits hdigits]
          obtain ⟨hne, hall⟩ := isDigits_iff.mp hdigits
          exact .named htrim hvalue hne hall
        · rw [ofWord_of_not_variable hword]
          simp only [isDigits_iff] at hword
          exact .expression htrim hne hvalue hword

private theorem Modifier.forall_written_iff {texts : List Text} {modifiers : List (Modifier α)} :
    List.Forall₂ Modifier.Written texts modifiers ↔ texts.map ofText = modifiers := by
  rw [← List.forall₂_eq_eq_eq, List.forall₂_map_left_iff]
  simp only [← written_iff]

private theorem Primitive.ofCode?_eq_some_iff {code : Nat} {shape : Primitive} :
    ofCode? code = some shape ↔ (code, shape) ∈ codes := by
  constructor
  · intro h
    unfold ofCode? at h
    split at h <;> cases h <;> decide
  · intro h
    simp only [codes, List.mem_cons, Prod.mk.injEq, List.not_mem_nil, or_false] at h
    rcases h with ⟨rfl, rfl⟩ | ⟨rfl, rfl⟩ | ⟨rfl, rfl⟩ | ⟨rfl, rfl⟩ | ⟨rfl, rfl⟩ | ⟨rfl, rfl⟩ |
      ⟨rfl, rfl⟩ | ⟨rfl, rfl⟩
    all_goals rfl

private theorem Bindings.bare_eq_iff {t name : Text} :
    bare t = name ↔
      ∃ dollars, t = List.replicate dollars '$' ++ name ∧ name.head? ≠ some '$' := by
  rw [bare, dropWhile_eq_iff]
  constructor
  · rintro ⟨lead, rfl, hlead, hname⟩
    refine ⟨lead.length, ?_, fun hdollar => by simpa using hname '$' hdollar⟩
    rw [← List.eq_replicate_of_mem fun c hc => eq_of_beq (hlead c hc)]
  · rintro ⟨dollars, rfl, hname⟩
    refine ⟨_, rfl, fun c hc => by simp [(List.mem_replicate.mp hc).2], fun c hc => ?_⟩
    exact beq_false_of_ne fun hdollar => hname (hdollar ▸ hc)

namespace ApertureMacro.Line

private theorem hasCode_iff {field : Text} {code : Nat} :
    HasCode field code ↔ natural? (Nat.pow 2 32) (trim field) = some code := by
  rw [natural?_eq_some_iff]
  simp only [HasCode, trimmed_iff]
  rfl

private theorem ofText_of_hasFields {t first : Text} {others : List Text}
    (h : HasFields t first others) : (ofText t : Except MacroFault (Line α)) = ofFields t := by
  unfold ofText
  split
  · exact absurd rfl h.ne_zero
  · rename_i text
    exact absurd (List.prefix_append ['0', ' '] text) h.not_remark
  · rename_i text
    exact absurd (List.prefix_append ['$'] text) h.not_assignment
  · rfl

private theorem ofAssignment_eq_ok_iff {t : Text} {line : Line α} :
    ofAssignment t = .ok line ↔
      ∃ left right name, t = left ++ '=' :: right ∧ '=' ∉ left ∧
        Bindings.bare (trim left) = name ∧ name ≠ [] ∧
          line = .assignment name (.ofText right) := by
  unfold ofAssignment
  constructor
  · intro h
    split at h
    · cases h
    · rename_i left right hcut
      obtain ⟨rfl, hleft⟩ := cut?_eq_some_iff.mp hcut
      dsimp only at h
      split at h
      · cases h
      · rename_i hname
        cases h
        exact ⟨left, right, _, rfl, hleft, rfl, by simpa using hname, rfl⟩
  · rintro ⟨left, right, name, rfl, hleft, rfl, hname, rfl⟩
    simp only [cut?_eq_some_iff.mpr ⟨rfl, hleft⟩]
    simp [hname]

private theorem ofFields_eq_ok_iff {t first : Text} {others : List Text} {line : Line α}
    (h : t.splitOn ',' = first :: others) :
    ofFields t = .ok line ↔
      HasCode first 0 ∧ line = .comment ([','].intercalate others) ∨
        ∃ code shape, HasCode first code ∧ (code, shape) ∈ Primitive.codes ∧
          line = .primitive ⟨shape, others.map Modifier.ofText⟩ := by
  simp only [ofFields, h, List.headD_cons, List.tail_cons, hasCode_iff,
    ← Primitive.ofCode?_eq_some_iff]
  split
  · rename_i hnone
    simp [hnone]
  · rename_i hzero
    simp [hzero, Primitive.ofCode?, join, eq_comm]
  · rename_i code hpos hcode
    have hne : code ≠ 0 := hpos
    split
    · rename_i hnone
      simp [hcode, hne, hnone]
    · rename_i shape hshape
      simp [hcode, hne, hshape, eq_comm]

private theorem splitOn_of_hasFields {t first : Text} {others : List Text}
    (h : HasFields t first others) : t.splitOn ',' = first :: others :=
  splitOn_eq_cons_iff.mpr ⟨h.eq_intercalate, h.comma_not_mem⟩

private theorem ofText_of_written {t : Text} {line : Line α} (h : line.Written t) :
    ofText t = .ok line := by
  cases h with
  | zero => rfl
  | remark hlead htext =>
    have hdrop := dropWhile_eq_iff.mpr ⟨_, rfl, hlead, htext⟩
    simp [ofText, trimLead, hdrop]
  | codeZero hfields hcode =>
    rw [ofText_of_hasFields hfields, ofFields_eq_ok_iff (splitOn_of_hasFields hfields)]
    exact .inl ⟨hcode, rfl⟩
  | assignment hleft htrim hname hdollar hvalue =>
    refine ofAssignment_eq_ok_iff.mpr ⟨_, _, _, rfl, ?_, ?_, hname, ?_⟩
    · simp [hleft]
    · rw [trimmed_iff.mp htrim, Bindings.bare_eq_iff]
      exact ⟨_, rfl, hdollar⟩
    · rw [Modifier.written_iff.mp hvalue]
  | primitive hfields hcode hshape hmodifiers =>
    rw [ofText_of_hasFields hfields, ofFields_eq_ok_iff (splitOn_of_hasFields hfields)]
    exact .inr ⟨_, _, hcode, hshape, by rw [Modifier.forall_written_iff.mp hmodifiers]⟩

private theorem written_of_ofText {t : Text} {line : Line α} (h : ofText t = .ok line) :
    line.Written t := by
  unfold ofText at h
  split at h
  · cases h
    exact .zero
  · rename_i text
    cases h
    generalize hrest : trimLead text = rest
    obtain ⟨lead, rfl, hlead, hhead⟩ := dropWhile_eq_iff.mp hrest
    exact .remark hlead hhead
  · rename_i rest
    obtain ⟨left, right, name, ht, hleft, hbare, hname, rfl⟩ := ofAssignment_eq_ok_iff.mp h
    obtain ⟨dollars, htrim, hdollar⟩ := Bindings.bare_eq_iff.mp hbare
    cases left with
    | nil => cases ht
    | cons c left =>
      cases ht
      exact .assignment (fun hmem => hleft (List.mem_cons_of_mem _ hmem)) (trimmed_iff.mpr htrim)
        hname hdollar (Modifier.written_iff.mpr rfl)
  · rename_i hzero hremark hassignment
    obtain ⟨first, others, hsplit⟩ := List.exists_cons_of_ne_nil (List.splitOn_ne_nil ',' t)
    obtain ⟨ht, hcomma⟩ := splitOn_eq_cons_iff.mp hsplit
    have hfields : HasFields t first others := by
      refine ⟨ht, hcomma, hzero, ?_, ?_⟩
      · rintro ⟨text, rfl⟩
        exact hremark text rfl
      · rintro ⟨text, rfl⟩
        exact hassignment text rfl
    rcases (ofFields_eq_ok_iff hsplit).mp h with ⟨hcode, rfl⟩ | ⟨code, shape, hcode, hshape, rfl⟩
    · exact .codeZero hfields hcode
    · exact .primitive hfields hcode hshape (Modifier.forall_written_iff.mpr rfl)

private theorem written_iff {t : Text} {line : Line α} : line.Written t ↔ ofText t = .ok line :=
  ⟨ofText_of_written, written_of_ofText⟩

end ApertureMacro.Line

namespace ApertureMacro

private theorem linesOf_cons_of_blank {part : Text} {parts : List Text} (h : trim part = []) :
    (linesOf (part :: parts) : Except MacroFault (List (Line α))) = linesOf parts := by
  simp [linesOf, h]

private theorem linesOf_cons {part : Text} {parts : List Text} (h : trim part ≠ []) :
    (linesOf (part :: parts) : Except MacroFault (List (Line α))) = (do
      let line ← Line.ofText (trim part)
      let lines ← linesOf parts
      pure (line :: lines)) := by
  simp [linesOf, h, List.mapM_cons]

/-- The lines of a macro are read as they are written. -/
private theorem linesWritten_iff {parts : List Text} {lines : List (Line α)} :
    LinesWritten parts lines ↔ linesOf parts = .ok lines := by
  constructor
  · intro h
    induction h with
    | nil => rfl
    | blank htrim _ ih => rw [linesOf_cons_of_blank (trimmed_iff.mp htrim), ih]
    | cons htrim hne hline _ ih =>
      rw [linesOf_cons (by rwa [trimmed_iff.mp htrim]), trimmed_iff.mp htrim,
        Line.written_iff.mp hline, ih]
      rfl
  · intro h
    induction parts generalizing lines with
    | nil =>
      cases h
      exact .nil
    | cons part parts ih =>
      by_cases hblank : trim part = []
      · rw [linesOf_cons_of_blank hblank] at h
        exact .blank (trimmed_iff.mpr hblank) (ih h)
      · rw [linesOf_cons hblank] at h
        obtain ⟨line, hline, h⟩ := Except.bind_eq_ok.mp h
        obtain ⟨rest, hrest, h⟩ := Except.bind_eq_ok.mp h
        cases h
        exact .cons (trimmed_iff.mpr rfl) hblank (Line.written_iff.mpr hline) (ih hrest)

private theorem parts?_eq_some_iff {body name : Text} {parts : List Text} :
    parts? body = some (name, parts) ↔
      ∃ rest, body = ['*'].intercalate (name :: (parts ++ ['%' :: rest])) ∧
        ∀ part ∈ name :: (parts ++ ['%' :: rest]), '*' ∉ part := by
  simp only [← splitOn_eq_cons_iff]
  unfold parts?
  constructor
  · intro h
    split at h
    · rename_i first others hsplit
      split at h
      · rename_i rest hlast
        cases h
        exact ⟨rest, by rw [hsplit, List.dropLast_append_getLast? _ hlast]⟩
      · cases h
    · cases h
  · rintro ⟨rest, hsplit⟩
    simp [hsplit]

theorem writes_iff {source : Text} {lines : List (Line α)} :
    Writes source lines ↔
      ∃ body name parts, source.after? "%AM".toList = some body ∧
        parts? body = some (name, parts) ∧ linesOf parts = .ok lines := by
  constructor
  · rintro ⟨name, parts, rest, rfl, hstars, hlines⟩
    exact ⟨_, name, parts, List.isPrefixOf?_eq_some_iff_append_eq.mpr rfl,
      parts?_eq_some_iff.mpr ⟨rest, rfl, hstars⟩, linesWritten_iff.mp hlines⟩
  · rintro ⟨body, name, parts, hbody, hparts, hlines⟩
    obtain ⟨rest, rfl, hstars⟩ := parts?_eq_some_iff.mp hparts
    exact ⟨name, parts, rest, (List.isPrefixOf?_eq_some_iff_append_eq.mp hbody).symm, hstars,
      linesWritten_iff.mpr hlines⟩

/-- A text is a macro command in one way at most. -/
theorem Writes.unique {source : Text} {lines others : List (Line α)} (h : Writes source lines)
    (hothers : Writes source others) : others = lines := by
  obtain ⟨body, name, parts, hbody, hparts, hlines⟩ := writes_iff.mp h
  obtain ⟨body', name', parts', hbody', hparts', hothers⟩ := writes_iff.mp hothers
  obtain rfl : body' = body := Option.some.inj (hbody'.symm.trans hbody)
  obtain ⟨-, rfl⟩ : name' = name ∧ parts' = parts := by
    simpa using Option.some.inj (hparts'.symm.trans hparts)
  exact Except.ok.inj (hothers.symm.trans hlines)

theorem writes_of_ofCommand {source : Text} {m : ApertureMacro α} (h : ofCommand source = .ok m) :
    ∃ name lines, Writes source lines ∧ m = lines.foldl add ⟨name, [], [], []⟩ := by
  unfold ofCommand at h
  split at h
  · cases h
  · rename_i body hbody
    split at h
    · cases h
    · rename_i name parts hparts
      split at h
      · cases h
      · obtain ⟨lines, hlines, rfl⟩ := Except.map_eq_ok.mp h
        exact ⟨_, lines, writes_iff.mpr ⟨body, name, parts, hbody, hparts, hlines⟩, rfl⟩

end ApertureMacro

end Gerber
