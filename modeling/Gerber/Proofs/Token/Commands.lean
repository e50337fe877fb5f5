import Gerber.Token
import Mathlib.Data.List.TakeWhile

/-!
# The commands of a block

A data block is cut before what a glued code is followed by, and an extended block at its stars.
Here is what such a cut looks like, and what a block is made of that is read from a text.
-/

namespace Gerber.Token

/-- The first three characters of a command decide whether it is a comment. -/
theorem isComment_cons_cons_cons (a b c : Char) (rest : Text) :
    isComment (a :: b :: c :: rest) =
      (a == 'G' && (b == '0' && c == '4' || b == '4' && !c.isDigit)) := by
  unfold isComment
  split
  · simp_all
  · simp_all
  · simp_all
  · rename_i hlong hshort _
    have hzero := hlong rest
    have hfour := hshort c rest
    simp_all

theorem commands_of_comment {w : Text} (h : isComment w = true) : commands w = [w] := by
  rw [commands, if_pos h]

/-- Whether a text is a code: the letter `G` and one or two digits. -/
def IsCode (code : Text) : Prop :=
  ∃ digits : Text, code = 'G' :: digits ∧ digits ≠ [] ∧ digits.length ≤ 2 ∧
    ∀ c ∈ digits, c.isDigit

/-- Whether a text goes on after a code: it is not empty, and starts with neither a digit nor a
star. -/
def GoesOn (tail : Text) : Prop :=
  ∃ c rest, tail = c :: rest ∧ c.isDigit = false ∧ c ≠ '*'

theorem isCode_and_goesOn_of_splitCode? {w code tail : Text}
    (h : splitCode? w = some (code, tail)) :
    IsCode code ∧ GoesOn tail ∧ w = code ++ tail := by
  unfold splitCode? at h
  split at h
  case h_2 => cases h
  case h_1 t =>
    simp only at h
    split at h
    case isTrue => cases h
    case isFalse hno =>
      cases h
      simp only [Bool.or_eq_true, not_or, Bool.not_eq_true, List.isEmpty_eq_false_iff,
        decide_eq_false_iff_not, Nat.not_lt] at hno
      obtain ⟨⟨⟨hdigits, hlength⟩, htail⟩, hstar⟩ := hno
      refine ⟨⟨_, rfl, hdigits, hlength, ?_⟩, ?_, ?_⟩
      · intro c hc
        exact List.mem_takeWhile_imp hc
      · obtain ⟨c, rest, hrest⟩ := List.exists_cons_of_ne_nil htail
        refine ⟨c, rest, hrest, ?_, ?_⟩
        · have hhead := List.head_dropWhile_not Char.isDigit htail
          simp only [hrest, List.head_cons] at hhead
          exact hhead
        · rw [hrest] at hstar
          simpa using hstar
      · rw [List.cons_append, List.takeWhile_append_dropWhile]

/-- The commands of a data block hold its characters in their order, and besides them only stars. -/
theorem filter_commands {p : Char → Bool} (hp : p '*' = false) (w : Text) :
    (commands w).flatten.filter p = w.filter p := by
  fun_induction commands w with
  | case1 w hcomment => simp
  | case2 w hcomment code tail hsplit ih =>
    obtain ⟨-, -, rfl⟩ := isCode_and_goesOn_of_splitCode? hsplit
    have hstar : ['*'].filter p = [] := by simp [hp]
    rw [List.flatten_cons, List.filter_append, ih, List.filter_append, List.filter_append, hstar,
      List.append_nil]
  | case3 w hcomment hsplit hnone =>
    rw [Bool.or_eq_true, List.isEmpty_iff, beq_iff_eq] at hnone
    rcases hnone with rfl | rfl
    · rfl
    · simp [hp]
  | case4 w hcomment hsplit hsome => simp

/-- The parts of an extended block between stars, without those that are blank. -/
def parts (inner : Text) : List Text :=
  (inner.splitOn '*').filter fun part => !(Text.trim part).isEmpty

/-- An extended block stays whole, or it is closed and cut into its parts, of which there are
several. -/
theorem extendedCommands_cases (inner : Text) (closed : Bool) :
    extendedCommands inner closed = ['%' :: inner ++ if closed then ['%'] else []] ∨
      closed = true ∧ 1 < (parts inner).length ∧
        extendedCommands inner closed =
          (parts inner).map fun part => '%' :: part ++ ['*', '%'] := by
  unfold extendedCommands
  simp only
  generalize '%' :: inner ++ (if closed then ['%'] else []) = block
  split
  · exact .inl rfl
  · rename_i hcut
    simp only [Bool.or_eq_true, Bool.not_eq_true', decide_eq_true_eq, not_or, Bool.not_eq_false,
      Nat.not_le] at hcut
    exact .inr ⟨hcut.1.2, hcut.2, rfl⟩

private theorem mem_of_mem_splitOn {t part : Text} (hpart : part ∈ t.splitOn '*') {c : Char}
    (hc : c ∈ part) : c ∈ t := by
  induction t generalizing part with
  | nil =>
    rw [List.splitOn_nil, List.mem_singleton] at hpart
    rwa [hpart] at hc
  | cons d t ih =>
    rw [List.splitOn_cons_eq_if_modifyHead] at hpart
    split at hpart
    · rcases List.mem_cons.mp hpart with rfl | hpart
      · cases hc
      · exact List.mem_cons_of_mem d (ih hpart hc)
    · obtain ⟨first, others, hcut⟩ := List.exists_cons_of_ne_nil (List.splitOn_ne_nil '*' t)
      rw [hcut] at hpart ih
      rcases List.mem_cons.mp hpart with rfl | hpart
      · rcases List.mem_cons.mp hc with rfl | hc
        · exact List.mem_cons_self
        · exact List.mem_cons_of_mem d (ih List.mem_cons_self hc)
      · exact List.mem_cons_of_mem d (ih (List.mem_cons_of_mem first hpart) hc)

/-- The parts of a block hold nothing that the block does not hold. -/
theorem mem_of_mem_parts {inner part : Text} (hpart : part ∈ parts inner) {c : Char}
    (hc : c ∈ part) : c ∈ inner :=
  mem_of_mem_splitOn (List.mem_filter.mp hpart).1 hc

/-- The text of an extended block, up to the closing sign and without line breaks. -/
def enclosed (t : Text) : Text := (t.takeWhile (· != '%')).filter fun c => !isBreak c

theorem sign_not_mem_enclosed (t : Text) : '%' ∉ enclosed t := by
  intro hmem
  have hsign := List.mem_takeWhile_imp (List.mem_filter.mp hmem).1
  simp at hsign

theorem isBreak_of_mem_enclosed {t : Text} {c : Char} (hc : c ∈ enclosed t) :
    isBreak c = false := by
  simpa using (List.mem_filter.mp hc).2

/-- What is left from the first percent sign on. -/
theorem dropWhile_sign (t : Text) :
    t.dropWhile (· != '%') = [] ∨ ∃ rest, t.dropWhile (· != '%') = '%' :: rest := by
  cases h : t.dropWhile (· != '%') with
  | nil => exact .inl rfl
  | cons c rest =>
    have hne : t.dropWhile (· != '%') ≠ [] := by simp [h]
    have hhead := List.head_dropWhile_not (· != '%') hne
    simp only [h, List.head_cons, bne_eq_false_iff_eq] at hhead
    exact .inr ⟨rest, by rw [hhead]⟩

end Gerber.Token
