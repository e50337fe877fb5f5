import Gerber.Text.Utf8
import Mathlib.Tactic.SplitIfs

/-!
# ASCII in UTF-8

A byte below 128 is a character of its own, whatever stands in front of it: a sequence that is not
complete there is replaced as it would be at the end.
-/

namespace Gerber.Text

private theorem le_lo_of_lead {b : UInt8} {lead : Utf8Lead} (h : Utf8Lead.of? b = some lead) :
    0x80 ≤ lead.lo := by
  unfold Utf8Lead.of? at h
  split_ifs at h <;> cases h <;> exact of_decide_eq_true rfl

private theorem utf8Rest_append {b lo : UInt8} (hb : b < 0x80) (hlo : 0x80 ≤ lo) (n : Nat)
    (hi : UInt8) (bits : Nat) (before after : List UInt8) :
    utf8Rest n lo hi bits (before ++ b :: after) =
      ((utf8Rest n lo hi bits before).1, (utf8Rest n lo hi bits before).2 ++ b :: after) := by
  induction n generalizing lo hi bits before with
  | zero => rfl
  | succ n ih =>
    cases before with
    | nil =>
      have hlow : ¬ lo ≤ b := UInt8.not_le.mpr (UInt8.lt_of_lt_of_le hb hlo)
      simp [utf8Rest, hlow]
    | cons c before =>
      rw [List.cons_append, utf8Rest, utf8Rest]
      split
      · exact ih (UInt8.le_refl _) _ _ _
      · rfl

private theorem ofUtf8_cons_ascii {b : UInt8} (hb : b < 0x80) (bytes : List UInt8) :
    ofUtf8 (b :: bytes) = Char.ofNat b.toNat :: ofUtf8 bytes := by
  rw [ofUtf8, if_pos hb]

private theorem ofUtf8_append_ascii {b : UInt8} (hb : b < 0x80) (before after : List UInt8) :
    ofUtf8 (before ++ b :: after) = ofUtf8 before ++ Char.ofNat b.toNat :: ofUtf8 after := by
  fun_induction ofUtf8 before with
  | case1 => exact ofUtf8_cons_ascii hb after
  | case2 c before hc ih => rw [List.cons_append, ofUtf8_cons_ascii hc, ih, List.cons_append]
  | case3 c before hc hlead ih =>
    rw [List.cons_append, ofUtf8, if_neg hc]
    simp only [hlead, ih, List.cons_append]
  | case4 c before hc lead hlead sequence ih =>
    rw [List.cons_append, ofUtf8, if_neg hc]
    simp only [hlead, utf8Rest_append hb (le_lo_of_lead hlead), List.cons_append]
    rw [← ih]

private theorem utf8Rest_append_or (n : Nat) (lo hi : UInt8) (bits : Nat)
    (before after : List UInt8) : utf8Rest n lo hi bits (before ++ after) =
        ((utf8Rest n lo hi bits before).1, (utf8Rest n lo hi bits before).2 ++ after) ∨
      utf8Rest n lo hi bits before = (none, []) := by
  induction n generalizing lo hi bits before with
  | zero => exact .inl rfl
  | succ n ih =>
    cases before with
    | nil => exact .inr rfl
    | cons b before =>
      rw [List.cons_append, utf8Rest, utf8Rest]
      split
      · exact ih _ _ _ _
      · exact .inl rfl

/-- Bytes are read as what stands on both sides of a place between them, unless the place breaks off
a sequence, which then ends in a replacement. -/
theorem ofUtf8_append_or (before after : List UInt8) :
    ofUtf8 (before ++ after) = ofUtf8 before ++ ofUtf8 after ∨
      (ofUtf8 before).getLast? = some replacement := by
  have hlast {c : Char} {t : Text} (h : t.getLast? = some replacement) :
      (c :: t).getLast? = some replacement := by
    rw [List.getLast?_cons, h]
    rfl
  fun_induction ofUtf8 before with
  | case1 => exact .inl rfl
  | case2 b before hb ih =>
    refine ih.imp (fun heq => ?_) hlast
    rw [List.cons_append, ofUtf8_cons_ascii hb, heq, List.cons_append]
  | case3 b before hb hlead ih =>
    refine ih.imp (fun heq => ?_) hlast
    rw [List.cons_append, ofUtf8, if_neg hb]
    simp only [hlead, heq, List.cons_append]
  | case4 b before hb lead hlead sequence ih =>
    rcases utf8Rest_append_or lead.following lead.lo lead.hi lead.bits before after
      with hwhole | hbroken
    · refine ih.imp (fun heq => ?_) hlast
      rw [List.cons_append, ofUtf8, if_neg hb]
      simp only [hlead, hwhole, List.cons_append]
      rw [← heq]
    · right
      have hsequence : sequence = (none, []) := hbroken
      rw [hsequence, ofUtf8]
      rfl

/-- The bytes of a text of ASCII characters. -/
def ascii (t : Text) : List UInt8 := t.map fun c => UInt8.ofNat c.toNat

private theorem toNat_ofNat_ascii {c : Char} (h : c.toNat < 128) :
    (UInt8.ofNat c.toNat).toNat = c.toNat :=
  UInt8.toNat_ofNat_of_lt' (Nat.lt_trans h (by decide))

private theorem ofNat_lt_of_ascii {c : Char} (h : c.toNat < 128) : UInt8.ofNat c.toNat < 0x80 := by
  rw [UInt8.lt_iff_toNat_lt, toNat_ofNat_ascii h]
  exact h

theorem ofUtf8_ascii_append {t : Text} (h : ∀ c ∈ t, c.toNat < 128) (bytes : List UInt8) :
    ofUtf8 (ascii t ++ bytes) = t ++ ofUtf8 bytes := by
  induction t with
  | nil => rfl
  | cons c t ih =>
    obtain ⟨hc, ht⟩ := List.forall_mem_cons.mp h
    rw [ascii, List.map_cons, List.cons_append, ofUtf8_cons_ascii (ofNat_lt_of_ascii hc),
      toNat_ofNat_ascii hc, Char.ofNat_toNat, ← ascii, ih ht, List.cons_append]

/-- ASCII put into bytes stands between what the bytes on both sides encode. -/
theorem ofUtf8_append_ascii_append {t : Text} (h : ∀ c ∈ t, c.toNat < 128) (hne : t ≠ [])
    (before after : List UInt8) :
    ofUtf8 (before ++ ascii t ++ after) = ofUtf8 before ++ t ++ ofUtf8 after := by
  cases t with
  | nil => exact absurd rfl hne
  | cons c t =>
    obtain ⟨hc, ht⟩ := List.forall_mem_cons.mp h
    rw [ascii, List.map_cons, List.append_assoc, List.cons_append,
      ofUtf8_append_ascii (ofNat_lt_of_ascii hc), toNat_ofNat_ascii hc, Char.ofNat_toNat, ← ascii,
      ofUtf8_ascii_append ht, List.append_assoc, List.cons_append]

end Gerber.Text
