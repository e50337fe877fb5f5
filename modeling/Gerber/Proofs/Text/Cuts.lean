import Gerber.Text.Blank
import Mathlib.Data.List.TakeWhile

/-!
# Where texts are cut

The parts into which a text is trimmed, cut and split, told by the characters that they hold and not
by how they are found.
-/

namespace Gerber.Text

theorem dropWhile_eq_iff {p : Char → Bool} {t rest : Text} :
    t.dropWhile p = rest ↔
      ∃ lead, t = lead ++ rest ∧ (∀ c ∈ lead, p c = true) ∧ ∀ c ∈ rest.head?, p c = false := by
  constructor
  · rintro rfl
    refine ⟨t.takeWhile p, List.takeWhile_append_dropWhile.symm, ?_, ?_⟩
    · exact List.all_eq_true.mp (List.all_takeWhile)
    · intro c hc
      have hhead := List.head?_dropWhile_not p t
      rw [Option.mem_def.mp hc] at hhead
      exact hhead
  · rintro ⟨lead, rfl, hlead, hrest⟩
    rw [List.dropWhile_append_of_pos hlead]
    cases rest with
    | nil => rfl
    | cons c rest => exact List.dropWhile_cons_of_neg (by simp [hrest c rfl])

private theorem trimEnd_eq_iff {p : Char → Bool} {t rest : Text} :
    trimEnd p t = rest ↔
      ∃ tail, t = rest ++ tail ∧ (∀ c ∈ tail, p c = true) ∧ ∀ c ∈ rest.getLast?, p c = false := by
  rw [trimEnd, List.reverse_eq_iff, dropWhile_eq_iff, List.head?_reverse]
  constructor
  · rintro ⟨lead, ht, hlead, hlast⟩
    refine ⟨lead.reverse, ?_, fun c hc => hlead c (List.mem_reverse.mp hc), hlast⟩
    rw [← List.reverse_reverse t, ht, List.reverse_append, List.reverse_reverse]
  · rintro ⟨tail, rfl, htail, hlast⟩
    exact ⟨tail.reverse, List.reverse_append, fun c hc => htail c (List.mem_reverse.mp hc), hlast⟩

/-- `inner` is what stands between the blank characters at the ends of `t`. -/
structure Trimmed (t inner : Text) : Prop where
  eq_append : ∃ lead tail, t = lead ++ (inner ++ tail) ∧ (∀ c ∈ lead, isBlank c = true) ∧
    ∀ c ∈ tail, isBlank c = true
  first : ∀ c ∈ inner.head?, isBlank c = false
  last : ∀ c ∈ inner.getLast?, isBlank c = false

theorem trimmed_iff {t inner : Text} : Trimmed t inner ↔ trim t = inner := by
  rw [trim, trimBoth, trimEnd_eq_iff]
  constructor
  · rintro ⟨⟨lead, tail, rfl, hlead, htail⟩, hfirst, hlast⟩
    rw [List.dropWhile_append_of_pos hlead]
    cases inner with
    | nil => exact ⟨[], List.dropWhile_eq_nil_iff.mpr htail, by simp, hlast⟩
    | cons c inner =>
      rw [List.cons_append, List.dropWhile_cons_of_neg (by simp [hfirst c rfl])]
      exact ⟨tail, rfl, htail, hlast⟩
  · rintro ⟨tail, hdrop, htail, hlast⟩
    obtain ⟨lead, ht, hlead, hfirst⟩ := dropWhile_eq_iff.mp hdrop
    refine ⟨⟨lead, tail, ht, hlead, htail⟩, fun c hc => hfirst c ?_, hlast⟩
    rw [List.head?_append, Option.mem_def.mp hc]
    rfl

theorem cut?_eq_some_iff {t left right : Text} {sep : Char} :
    t.cut? sep = some (left, right) ↔ t = left ++ sep :: right ∧ sep ∉ left := by
  constructor
  · intro h
    obtain ⟨rest, hfollowing, hpair⟩ := Option.map_eq_some_iff.mp h
    cases hpair
    unfold following? at hfollowing
    split at hfollowing
    · cases hfollowing
    · rename_i c rest' hdrop
      cases hfollowing
      obtain ⟨-, -, -, hhead⟩ := dropWhile_eq_iff.mp hdrop
      obtain rfl : c = sep := bne_eq_false_iff_eq.mp (hhead c rfl)
      refine ⟨?_, fun hmem => ?_⟩
      · rw [← hdrop, List.takeWhile_append_dropWhile]
      · simpa using List.mem_takeWhile_imp (p := (· != c)) hmem
  · rintro ⟨rfl, hsep⟩
    have hleft : ∀ c ∈ left, (c != sep) = true := fun c hc => bne_iff_ne.mpr fun h => hsep (h ▸ hc)
    simp [cut?, following?, List.dropWhile_append_of_pos hleft, List.takeWhile_append_of_pos hleft]

private theorem sep_not_mem_of_mem_splitOn {t part : Text} {sep : Char} (h : part ∈ t.splitOn sep) :
    sep ∉ part := by
  induction t generalizing part with
  | nil =>
    rw [List.splitOn_nil, List.mem_singleton] at h
    simp [h]
  | cons c t ih =>
    rw [List.splitOn_cons_eq_if_modifyHead] at h
    obtain ⟨first, others, hsplit⟩ := List.exists_cons_of_ne_nil (List.splitOn_ne_nil sep t)
    rw [hsplit] at h ih
    split at h
    · rcases List.mem_cons.mp h with rfl | h
      · exact List.not_mem_nil
      · exact ih h
    · rename_i hne
      rcases List.mem_cons.mp h with rfl | h
      · have hfirst : sep ∉ first := ih List.mem_cons_self
        have hsep : sep ≠ c := fun h => hne (beq_iff_eq.mpr h.symm)
        simp [hfirst, hsep]
      · exact ih (List.mem_cons_of_mem first h)

theorem splitOn_eq_cons_iff {t first : Text} {others : List Text} {sep : Char} :
    t.splitOn sep = first :: others ↔
      t = [sep].intercalate (first :: others) ∧ ∀ part ∈ first :: others, sep ∉ part := by
  constructor
  · intro h
    rw [← h]
    exact ⟨(List.intercalate_splitOn sep).symm, fun part => sep_not_mem_of_mem_splitOn⟩
  · rintro ⟨rfl, hparts⟩
    exact List.splitOn_intercalate sep hparts (List.cons_ne_nil first others)

end Gerber.Text
