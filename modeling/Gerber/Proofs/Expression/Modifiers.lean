import Gerber.Modifier
import Gerber.Proofs.Decimal.Units

/-!
# Modifiers and expressions

A modifier that is a plain number or a plain variable is not evaluated as an expression.  It comes
to the same number, but for the numerals with letters in them, which no expression may hold.
-/

namespace Gerber

namespace Numeral

private theorem exponent?_eq_some {w : Text} {e : Int} (h : exponent? w = some e) :
    w = [] ∧ e = 0 ∨ ∃ c rest, w = c :: rest ∧ (c = 'e' ∨ c = 'E') := by
  unfold exponent? at h
  split at h
  · exact .inl ⟨rfl, (Option.some.inj h).symm⟩
  · rename_i c rest
    split at h
    · rename_i hletter
      exact .inr ⟨c, rest, rfl, by simpa using hletter⟩
    · cases h

/-- The point at the start of a text and the digits after it. -/
def pointed : Text → Text
  | '.' :: t => '.' :: t.takeWhile Char.isDigit
  | _ => []

private theorem pointed_append (t : Text) : pointed t ++ (fraction t).2 = t := by
  fun_cases fraction t with
  | case1 t => exact congrArg ('.' :: ·) List.takeWhile_append_dropWhile
  | case2 hpoint => simp [pointed]

private theorem fraction_pointed (t : Text) : fraction (pointed t) = ((fraction t).1, []) := by
  fun_cases fraction t with
  | case1 t =>
    have hdigits : ∀ c ∈ t.takeWhile Char.isDigit, c.isDigit :=
      fun c hc => List.mem_takeWhile_imp hc
    simp only [pointed, fraction, List.takeWhile_eq_self_iff.mpr hdigits,
      List.dropWhile_eq_nil_iff.mpr hdigits]
  | case2 hpoint => simp [pointed, fraction]

/-- The digits at the start of a text, with a point and more digits if they follow. -/
def plainPart (t : Text) : Text := t.takeWhile Char.isDigit ++ pointed (t.dropWhile Char.isDigit)

private theorem plainPart_append (t : Text) :
    plainPart t ++ (fraction (t.dropWhile Char.isDigit)).2 = t := by
  rw [plainPart, List.append_assoc, pointed_append, List.takeWhile_append_dropWhile]

private theorem takeWhile_plainPart (t : Text) :
    (plainPart t).takeWhile Char.isDigit = t.takeWhile Char.isDigit ∧
      (plainPart t).dropWhile Char.isDigit = pointed (t.dropWhile Char.isDigit) := by
  have hdigits : ∀ c ∈ t.takeWhile Char.isDigit, c.isDigit := fun c hc => List.mem_takeWhile_imp hc
  rw [plainPart, List.takeWhile_append_of_pos hdigits, List.dropWhile_append_of_pos hdigits]
  unfold pointed
  split <;> simp

private theorem isNumberChar_of_isDigit {c : Char} (h : c.isDigit) : Expression.isNumberChar c := by
  simp [Expression.isNumberChar, h]

private theorem isNumberChar_of_mem_pointed {t : Text} {c : Char} (h : c ∈ pointed t) :
    Expression.isNumberChar c := by
  unfold pointed at h
  split at h
  · rcases List.mem_cons.mp h with rfl | h
    · rfl
    · exact isNumberChar_of_isDigit (List.mem_takeWhile_imp h)
  · cases h

private theorem isNumberChar_of_mem_plainPart {t : Text} {c : Char} (h : c ∈ plainPart t) :
    Expression.isNumberChar c := by
  rcases List.mem_append.mp h with h | h
  · exact isNumberChar_of_isDigit (List.mem_takeWhile_imp h)
  · exact isNumberChar_of_mem_pointed h

/-- Digits, a point among them or not, without a power of ten. -/
structure Plain (v : Text) (digits : Nat) (exponent : Int) : Prop where
  ne_nil : v ≠ []
  isNumberChar : ∀ c ∈ v, Expression.isNumberChar c
  decimal : ∀ negative, decimal? negative v = some (.finite negative digits exponent)

private theorem decimal?_plainPart {negative : Bool} {t : Text} {n : Numeral}
    (h : decimal? negative t = some n) : ∃ digits exponent e,
      (∀ negative', decimal? negative' (plainPart t) =
        some (.finite negative' digits (-exponent))) ∧
      exponent? (fraction (t.dropWhile Char.isDigit)).2 = some e ∧
      n = .finite negative digits (e - exponent) := by
  obtain ⟨htake, hdrop⟩ := takeWhile_plainPart t
  unfold decimal? at h
  simp only at h
  split at h
  · cases h
  · rename_i hsome
    obtain ⟨e, he, rfl⟩ := Option.map_eq_some_iff.mp h
    refine ⟨_, _, e, fun negative' => ?_, he, rfl⟩
    simp only [decimal?, htake, hdrop, fraction_pointed, if_neg hsome, exponent?, Option.map_some,
      Int.zero_sub]

private theorem exists_plain {negative : Bool} {t : Text} {n : Numeral}
    (h : decimal? negative t = some n) :
    ∃ v w digits exponent, t = v ++ w ∧ Plain v digits exponent ∧
      (w = [] ∧ n = .finite negative digits exponent ∨
        ∃ c rest, w = c :: rest ∧ (c = 'e' ∨ c = 'E')) := by
  obtain ⟨digits, exponent, e, hplain, he, rfl⟩ := decimal?_plainPart h
  have hne : plainPart t ≠ [] := by
    intro hnil
    have hnone := hplain negative
    rw [hnil] at hnone
    cases hnone
  refine ⟨plainPart t, _, digits, -exponent, (plainPart_append t).symm,
    ⟨hne, fun c hc => isNumberChar_of_mem_plainPart hc, hplain⟩, ?_⟩
  rcases exponent?_eq_some he with ⟨hw, rfl⟩ | hletter
  · exact .inl ⟨hw, by rw [Int.zero_sub]⟩
  · exact .inr hletter

def IsPlainLetter (c : Char) : Prop := c.isAlpha ∧ c ≠ 'x' ∧ c ≠ 'X'

private theorem isPlainLetter_of_toLower {c : Char} (h : c.toLower = 'i' ∨ c.toLower = 'n') :
    IsPlainLetter c := by
  refine ⟨?_, ?_, ?_⟩
  · rw [← Char.isAlpha_toLower_eq_isAlpha]
    rcases h with h | h <;> rw [h] <;> decide
  · rintro rfl
    revert h
    decide
  · rintro rfl
    revert h
    decide

private theorem exists_letter_of_named? {negative : Bool} {t : Text} {n : Numeral}
    (h : named? negative t = some n) : ∃ c rest, t = c :: rest ∧ IsPlainLetter c := by
  cases t with
  | nil => cases h
  | cons c rest =>
    refine ⟨c, rest, rfl, isPlainLetter_of_toLower ?_⟩
    simp only [named?, List.map_cons] at h
    split at h
    · rename_i hname
      rcases (Bool.or_eq_true _ _).mp hname with hname | hname
      · exact .inl (List.cons.inj (eq_of_beq hname)).1
      · exact .inl (List.cons.inj (eq_of_beq hname)).1
    · split at h
      · rename_i hname
        exact .inr (List.cons.inj (eq_of_beq hname)).1
      · cases h

/-- A sign in front of a numeral or none. -/
def lead (negative : Bool) : List Text := if negative then [['-']] else [[], ['+']]

private theorem exists_lead {t : Text} {n : Numeral} (h : ofText? t = some n) :
    ∃ negative, ∃ sign ∈ lead negative, ∃ u, t = sign ++ u ∧ unsigned? negative u = some n := by
  unfold ofText? at h
  split at h
  · rename_i u
    exact ⟨true, ['-'], by simp [lead], u, rfl, h⟩
  · rename_i u
    exact ⟨false, ['+'], by simp [lead], u, rfl, h⟩
  · exact ⟨false, [], by simp [lead], t, rfl, h⟩

private theorem plain_or_lettered {t : Text} {n : Numeral} (h : ofText? t = some n) :
    ∃ negative, ∃ sign ∈ lead negative,
      (∃ v digits exponent, t = sign ++ v ∧ Plain v digits exponent ∧
        n = .finite negative digits exponent) ∨
      ∃ v c rest, t = sign ++ (v ++ c :: rest) ∧ IsPlainLetter c ∧
        (v = [] ∨ ∃ digits exponent, Plain v digits exponent) := by
  obtain ⟨negative, sign, hsign, u, rfl, hu⟩ := exists_lead h
  refine ⟨negative, sign, hsign, ?_⟩
  rcases Option.or_eq_some_iff.mp hu with hdecimal | ⟨-, hnamed⟩
  · obtain ⟨v, w, digits, exponent, rfl, hv, ⟨rfl, rfl⟩ | ⟨c, rest, rfl, hc⟩⟩ :=
      exists_plain hdecimal
    · exact .inl ⟨v, digits, exponent, by rw [List.append_nil], hv, rfl⟩
    · refine .inr ⟨v, c, rest, rfl, ?_, .inr ⟨digits, exponent, hv⟩⟩
      rcases hc with rfl | rfl <;> exact ⟨by decide, by decide, by decide⟩
  · obtain ⟨c, rest, rfl, hc⟩ := exists_letter_of_named? hnamed
    exact .inr ⟨[], c, rest, rfl, hc, .inl rfl⟩

theorem Plain.ofText? {v : Text} {digits : Nat} {exponent : Int} (h : Plain v digits exponent) :
    Numeral.ofText? v = some (.finite false digits exponent) := by
  unfold Numeral.ofText?
  split
  · cases h.isNumberChar _ List.mem_cons_self
  · cases h.isNumberChar _ List.mem_cons_self
  · rw [unsigned?, h.decimal false]
    rfl

end Numeral

namespace Expression

variable {α : Type} [Scalar α] (expression : Text) (bindings : Bindings α)

open Numeral (Plain IsPlainLetter lead)

private theorem isNumberChar_eq_false_of_isAlpha {c : Char} (h : c.isAlpha) :
    isNumberChar c = false := by
  unfold isNumberChar
  rw [Bool.or_eq_false_iff]
  constructor
  · by_contra hdigit
    rw [Bool.not_eq_false] at hdigit
    rw [Text.not_isAlpha_of_isDigit hdigit] at h
    cases h
  · apply beq_false_of_ne
    rintro rfl
    cases h

private theorem pieces_letter {c : Char} (h : IsPlainLetter c) (rest : Text) :
    pieces expression bindings (c :: rest) = .error (.unexpected c expression) := by
  obtain ⟨halpha, hx, hX⟩ := h
  have hne (d : Char) (hd : d.isAlpha = false) : (c == d) = false := by
    apply beq_false_of_ne
    rintro rfl
    rw [halpha] at hd
    cases hd
  have hnumber := isNumberChar_eq_false_of_isAlpha halpha
  rw [pieces]
  simp only [hne ' ' rfl, hne '\t' rfl, hne '+' rfl, hne '-' rfl, hne '/' rfl, hne '(' rfl,
    hne ')' rfl, hne '$' rfl, hnumber, beq_false_of_ne hx, beq_false_of_ne hX]
  rfl

private theorem takeWhile_of_head {p : Char → Bool} {t : Text} (h : ∀ c ∈ t.head?, p c = false) :
    t.takeWhile p = [] ∧ t.dropWhile p = t := by
  cases t with
  | nil => exact ⟨rfl, rfl⟩
  | cons c t => simp [h c rfl]

private theorem pieces_plain {v : Text} {digits : Nat} {exponent : Int}
    (h : Plain v digits exponent) {rest : Text} (hrest : ∀ c ∈ rest.head?, isNumberChar c = false) :
    pieces expression bindings (v ++ rest) =
      (pieces expression bindings rest).map
        (.item (.number (Scalar.ofNumeral (.finite false digits exponent))) :: ·) := by
  have hread : (Scalar.ofText? v : Option α) =
      some (Scalar.ofNumeral (.finite false digits exponent)) := by
    rw [Scalar.ofText?, h.ofText?]
    rfl
  obtain ⟨c, tail, rfl⟩ := List.exists_cons_of_ne_nil h.ne_nil
  have hc : isNumberChar c := h.isNumberChar c List.mem_cons_self
  have htail : ∀ d ∈ tail, isNumberChar d :=
    fun d hd => h.isNumberChar d (List.mem_cons_of_mem c hd)
  have hne (d : Char) (hd : isNumberChar d = false) : (c == d) = false := by
    apply beq_false_of_ne
    rintro rfl
    rw [hc] at hd
    cases hd
  obtain ⟨htake, hdrop⟩ := takeWhile_of_head hrest
  rw [List.cons_append, pieces, List.takeWhile_append_of_pos htail,
    List.dropWhile_append_of_pos htail, htake, hdrop, List.append_nil, hread]
  simp only [hne ' ' rfl, hne '\t' rfl, hne '+' rfl, hne '-' rfl, hne 'x' rfl, hne 'X' rfl,
    hne '/' rfl, hne '(' rfl, hne ')' rfl, hne '$' rfl, hc]
  rfl

private theorem pieces_lead {negative : Bool} {sign : Text} (h : sign ∈ lead negative) (u : Text) :
    pieces expression bindings (sign ++ u) = pieces expression bindings u ∧ negative = false ∨
      ∃ op, pieces expression bindings (sign ++ u) =
        (pieces expression bindings u).map (.item (.operation op) :: ·) ∧
          op = if negative then .sub else .add := by
  cases negative with
  | true =>
    obtain rfl := List.mem_singleton.mp h
    refine .inr ⟨.sub, ?_, rfl⟩
    rw [List.singleton_append, pieces]
    rfl
  | false =>
    rcases List.mem_pair.mp h with rfl | rfl
    · exact .inl ⟨rfl, rfl⟩
    · refine .inr ⟨.add, ?_, rfl⟩
      rw [List.singleton_append, pieces]
      rfl

private theorem evaluate_plain {negative : Bool} {sign v : Text} {digits : Nat} {exponent : Int}
    (hsign : sign ∈ lead negative) (hv : Plain v digits exponent) :
    evaluate bindings (sign ++ v) =
      .ok (Scalar.zero + (if negative then -Scalar.one else Scalar.one) *
        Scalar.ofNumeral (.finite false digits exponent)) := by
  have hnumber : pieces (sign ++ v) bindings v =
      .ok [.item (.number (Scalar.ofNumeral (.finite false digits exponent)))] := by
    have hend : ∀ c ∈ ([] : Text).head?, isNumberChar c = false := nofun
    have hplain := pieces_plain (sign ++ v) bindings hv hend
    rwa [List.append_nil, pieces] at hplain
  rcases pieces_lead (sign ++ v) bindings hsign v with
    ⟨hpieces, rfl⟩ | ⟨op, hpieces, rfl⟩
  · rw [evaluate, hpieces, hnumber]
    rfl
  · rw [evaluate, hpieces, hnumber]
    cases negative <;> rfl

private theorem evaluate_letter {negative : Bool} {sign v rest : Text} {c : Char}
    (hsign : sign ∈ lead negative) (hc : IsPlainLetter c)
    (hv : v = [] ∨ ∃ digits exponent, Plain v digits exponent) :
    evaluate bindings (sign ++ (v ++ c :: rest)) =
      .error (.unexpected c (sign ++ (v ++ c :: rest))) := by
  generalize hall : sign ++ (v ++ c :: rest) = t
  have hletter : pieces t bindings (v ++ c :: rest) = .error (.unexpected c t) := by
    rcases hv with rfl | ⟨digits, exponent, hv⟩
    · exact pieces_letter t bindings hc rest
    · have hnumber : ∀ d ∈ (c :: rest).head?, isNumberChar d = false := by
        rintro d ⟨⟩
        exact isNumberChar_eq_false_of_isAlpha hc.1
      rw [pieces_plain t bindings hv hnumber, pieces_letter t bindings hc]
      rfl
  have hpieces : pieces t bindings t = .error (.unexpected c t) := by
    rcases pieces_lead t bindings hsign (v ++ c :: rest) with
      ⟨hsigned, -⟩ | ⟨op, hsigned, -⟩
    · rw [hall, hletter] at hsigned
      exact hsigned
    · rw [hall, hletter] at hsigned
      exact hsigned
  rw [evaluate, hpieces]

private theorem isNameChar_of_isDigit {c : Char} (h : c.isDigit) : isNameChar c := by
  have hx : c ≠ 'x' := by
    rintro rfl
    cases h
  have hX : c ≠ 'X' := by
    rintro rfl
    cases h
  simp [isNameChar, Char.isAlphanum, h, hx, hX]

private theorem evaluate_variable {name : Text} (h : name.isDigits) :
    evaluate bindings ('$' :: name) =
      match bindings.get? name with
      | some v => .ok (Scalar.zero + Scalar.one * v)
      | none => .error (.unbound name ('$' :: name)) := by
  have hdigits : ∀ c ∈ name, isNameChar c := by
    simp only [Text.isDigits, Bool.and_eq_true, List.all_eq_true] at h
    exact fun c hc => isNameChar_of_isDigit (h.2 c hc)
  have hpieces : pieces ('$' :: name) bindings ('$' :: name) =
      match bindings.get? name with
      | some v => .ok [.item (.number v)]
      | none => .error (.unbound name ('$' :: name)) := by
    rw [pieces, List.takeWhile_eq_self_iff.mpr hdigits, List.dropWhile_eq_nil_iff.mpr hdigits,
      pieces]
    rfl
  rw [evaluate, hpieces]
  cases bindings.get? name <;> rfl

end Expression

namespace Modifier

open Decimal (one_mul_eq neg_one_mul_eq same_zero_add toFloat_finite_true)

/-- A text that writes a number with a letter in it: a power of ten, or the name of a number that is
not finite. -/
def isLettered (t : Text) : Bool := (Numeral.ofText? t).isSome && t.any Char.isAlpha

/-- A text as a modifier and the same text as an expression are taken or refused alike, and come to
the same number. -/
structure Agrees (bindings : Bindings Float) (t : Text) : Prop where
  accepted : (∃ v, (ofText t).eval bindings = .ok v) ↔
    ∃ v, Expression.evaluate bindings (Text.trim t) = .ok v
  same : ∀ v w, (ofText t).eval bindings = .ok v →
    Expression.evaluate bindings (Text.trim t) = .ok w → Scalar.Same v w

private theorem Agrees.of_ok {bindings : Bindings Float} {t : Text} {v w : Float}
    (hv : (ofText t).eval bindings = .ok v)
    (hw : Expression.evaluate bindings (Text.trim t) = .ok w) (h : Scalar.Same v w) :
    Agrees bindings t where
  accepted := ⟨fun _ => ⟨w, hw⟩, fun _ => ⟨v, hv⟩⟩
  same v' w' hv' hw' := by
    obtain rfl := Except.ok.inj (hv.symm.trans hv')
    obtain rfl := Except.ok.inj (hw.symm.trans hw')
    exact h

private theorem Agrees.of_error {bindings : Bindings Float} {t : Text} {e e' : ExpressionFault}
    (he : (ofText t).eval bindings = .error e)
    (he' : Expression.evaluate bindings (Text.trim t) = .error e') : Agrees bindings t where
  accepted := by simp [he, he']
  same v w hv := by simp [he] at hv

private theorem ofText_of_numeral {t : Text} {n : Numeral} (h : Text.trim t ≠ [])
    (hn : Numeral.ofText? (Text.trim t) = some n) :
    (ofText t : Modifier Float) = literal n.toFloat := by
  rw [ofText, if_neg (by simpa using h), Scalar.ofText?, hn]
  rfl

private theorem ofText_of_word {t : Text} (h : Text.trim t ≠ [])
    (hn : Numeral.ofText? (Text.trim t) = none) :
    (ofText t : Modifier Float) = ofWord (Text.trim t) := by
  rw [ofText, if_neg (by simpa using h), Scalar.ofText?, hn]
  rfl

private theorem agrees_of_word {t : Text} (h : Text.trim t ≠ [])
    (hn : Numeral.ofText? (Text.trim t) = none) (bindings : Bindings Float) :
    Agrees bindings t := by
  have hword := ofText_of_word h hn
  have hexpression (hword : (ofText t : Modifier Float) = expression (Text.trim t)) :
      Agrees bindings t := by
    cases hvalue : Expression.evaluate bindings (Text.trim t) with
    | ok v => exact .of_ok (by rw [hword, eval, hvalue]) hvalue (.refl v)
    | error e => exact .of_error (by rw [hword, eval, hvalue]) hvalue
  unfold ofWord at hword
  split at hword
  · rename_i name hname
    split at hword
    · rename_i hdigits
      have hvalue := Expression.evaluate_variable bindings hdigits
      rw [← hname] at hvalue
      cases hget : bindings.get? name with
      | some v =>
        rw [hget] at hvalue
        have heval : (ofText t).eval bindings = .ok v := by rw [hword, eval, hget]
        refine .of_ok heval hvalue ?_
        rw [one_mul_eq]
        exact same_zero_add v
      | none =>
        rw [hget] at hvalue
        exact .of_error (by rw [hword, eval, hget]) hvalue
    · exact hexpression hword
  · exact hexpression hword

private theorem same_signed (negative : Bool) (digits : Nat) (exponent : Int) :
    Scalar.Same (Numeral.toFloat (.finite negative digits exponent))
      (Scalar.zero + (if negative then -Scalar.one else Scalar.one) *
        Scalar.ofNumeral (.finite false digits exponent)) := by
  cases negative with
  | false =>
    rw [if_neg Bool.false_ne_true, one_mul_eq]
    exact same_zero_add _
  | true =>
    rw [if_pos rfl, neg_one_mul_eq, toFloat_finite_true]
    exact same_zero_add _

private theorem any_isAlpha_signed {negative : Bool} {sign v : Text} {digits : Nat} {exponent : Int}
    (hsign : sign ∈ Numeral.lead negative) (hv : Numeral.Plain v digits exponent) :
    (sign ++ v).any Char.isAlpha = false := by
  have hnone : sign.any Char.isAlpha = false := by
    cases negative with
    | true =>
      obtain rfl := List.mem_singleton.mp hsign
      rfl
    | false =>
      rcases List.mem_pair.mp hsign with rfl | rfl <;> rfl
  rw [List.any_append, hnone, Bool.false_or, List.any_eq_false]
  intro c hc halpha
  have hnumber := hv.isNumberChar c hc
  rw [Expression.isNumberChar_eq_false_of_isAlpha halpha] at hnumber
  cases hnumber

private theorem eval_lettered {t : Text} (h : Text.trim t ≠ []) (hletter : isLettered (Text.trim t))
    (bindings : Bindings Float) :
    ∃ n c, Numeral.ofText? (Text.trim t) = some n ∧
      (ofText t).eval bindings = .ok n.toFloat ∧ c ∈ Text.trim t ∧ c.isAlpha ∧
      Expression.evaluate bindings (Text.trim t) = .error (.unexpected c (Text.trim t)) := by
  obtain ⟨hsome, halpha⟩ := (Bool.and_eq_true _ _).mp hletter
  obtain ⟨n, hn⟩ := Option.isSome_iff_exists.mp hsome
  obtain ⟨negative, sign, hsign, ⟨v, digits, exponent, hsplit, hv, -⟩ |
    ⟨v, c, rest, hsplit, hc, hv⟩⟩ := Numeral.plain_or_lettered hn
  · rw [hsplit, any_isAlpha_signed hsign hv] at halpha
    cases halpha
  · refine ⟨n, c, hn, by rw [ofText_of_numeral h hn, eval], ?_, hc.1, ?_⟩
    · rw [hsplit]
      simp
    · rw [hsplit]
      exact Expression.evaluate_letter bindings hsign hc hv

private theorem not_agrees_of_isLettered {t : Text} (h : Text.trim t ≠ [])
    (hletter : isLettered (Text.trim t)) (bindings : Bindings Float) : ¬Agrees bindings t := by
  intro hagrees
  obtain ⟨n, c, -, heval, -, -, hrefused⟩ := eval_lettered h hletter bindings
  obtain ⟨v, hv⟩ := hagrees.accepted.mp ⟨_, heval⟩
  rw [hrefused] at hv
  cases hv

private theorem agrees_of_numeral {t : Text} {n : Numeral} (h : Text.trim t ≠ [])
    (hn : Numeral.ofText? (Text.trim t) = some n) (hletter : isLettered (Text.trim t) = false)
    (bindings : Bindings Float) : Agrees bindings t := by
  have heval : (ofText t).eval bindings = .ok n.toFloat := by rw [ofText_of_numeral h hn, eval]
  obtain ⟨negative, sign, hsign, ⟨v, digits, exponent, hsplit, hv, rfl⟩ |
    ⟨v, c, rest, hsplit, hc, hv⟩⟩ := Numeral.plain_or_lettered hn
  · refine .of_ok heval ?_ (same_signed negative digits exponent)
    rw [hsplit]
    exact Expression.evaluate_plain bindings hsign hv
  · rw [isLettered, hn, hsplit] at hletter
    simp [hc.1] at hletter

/-- A modifier agrees with the expression that it writes if and only if it is no numeral with a
letter in it; such a numeral is a number as a modifier and refused as an expression. -/
theorem agrees_iff {t : Text} (h : Text.trim t ≠ []) (bindings : Bindings Float) :
    (Agrees bindings t ↔ isLettered (Text.trim t) = false) ∧
      (isLettered (Text.trim t) → ∃ n c, Numeral.ofText? (Text.trim t) = some n ∧
        (ofText t).eval bindings = .ok n.toFloat ∧ c ∈ Text.trim t ∧ c.isAlpha ∧
        Expression.evaluate bindings (Text.trim t) = .error (.unexpected c (Text.trim t))) := by
  refine ⟨⟨fun hagrees => ?_, fun hletter => ?_⟩, fun hletter => eval_lettered h hletter bindings⟩
  · rw [← Bool.not_eq_true]
    exact fun hletter => not_agrees_of_isLettered h hletter bindings hagrees
  · cases hn : Numeral.ofText? (Text.trim t) with
    | none => exact agrees_of_word h hn bindings
    | some n => exact agrees_of_numeral h hn hletter bindings

theorem agrees_iff_signedFraction :
    Text.trim " -1.50 ".toList ≠ [] ∧ Agrees (.ofParameters []) " -1.50 ".toList :=
  ⟨by decide, (agrees_iff (by decide) _).1.mpr (by decide)⟩

/-- An infinity is a number as a modifier and not as an expression. -/
theorem not_always_agrees :
    ¬∀ (t : Text) (bindings : Bindings Float), Text.trim t ≠ [] → Agrees bindings t := by
  intro hall
  have hne : Text.trim "inf".toList ≠ [] := by decide
  have hletter : isLettered (Text.trim "inf".toList) := by decide
  exact not_agrees_of_isLettered hne hletter (.ofParameters []) (hall _ _ hne)

end Modifier

end Gerber
