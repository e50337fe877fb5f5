import Gerber.Proofs.Except
import Gerber.StepRepeat

/-!
# Counts of step-and-repeat blocks

A block starts with counts of at least one copy along each axis and with no step.  Changing a step
count changes nothing else, and fails only for a count out of range or for a block that is not
there.
-/

namespace Gerber

variable {α : Type}

namespace StepRepeat

/-- The block has at least one copy along each axis. -/
def Repeats (block : StepRepeat α) : Prop := 1 ≤ block.repeatX ∧ 1 ≤ block.repeatY

/-- A block that a command opens has copies and counts no steps. -/
theorem repeats_of_ofCommand [Scalar α] {source : Text} {format : Format} {line : Nat}
    {block : StepRepeat α} (h : ofCommand source format line = .ok block) :
    block.Repeats ∧ block.steps = 0 := by
  unfold ofCommand at h
  split at h
  · cases h
  · simp only [Except.bind_eq_ok] at h
    obtain ⟨repeatX, -, repeatY, -, stepX, -, stepY, -, h⟩ := h
    split at h
    · cases h
    case isFalse hrepeat =>
      split at h
      · cases h
      · cases h
        obtain ⟨hx, hy⟩ := not_or.mp hrepeat
        exact ⟨⟨Nat.pos_of_ne_zero hx, Nat.pos_of_ne_zero hy⟩, rfl⟩

end StepRepeat

namespace StepRepeats

variable {r r' : StepRepeats α} {id : Nat} {delta : Int}

theorem exists_get? (h : id < r.blocks.length) : ∃ block, r.get? id = some block :=
  ⟨_, List.getElem?_eq_getElem h⟩

theorem adjust_eq_ok_iff :
    r.adjust id delta = .ok r' ↔ ∃ block, r.get? id = some block ∧
      (0 ≤ block.steps + delta ∧ block.steps + delta < countLimit) ∧
        r' = ⟨r.blocks.set id { block with steps := (block.steps + delta).toNat }⟩ := by
  unfold adjust
  cases r.get? id with
  | none => simp
  | some block =>
    simp only [Option.some.injEq, exists_eq_left']
    split
    · simp; omega
    · simp only [Except.ok.injEq]
      constructor
      · rintro rfl
        exact ⟨by omega, rfl⟩
      · rintro ⟨-, rfl⟩
        rfl

/-- The count of a block that is there can only go out of range. -/
theorem fault_of_adjust {block : StepRepeat α} {fault : Fault} (hget : r.get? id = some block)
    (h : r.adjust id delta = .error fault) : ∃ e, fault = .stepRepeat e := by
  unfold adjust at h
  rw [hget] at h
  simp only at h
  split at h
  · cases h
    exact ⟨_, rfl⟩
  · cases h

theorem length_adjust (h : r.adjust id delta = .ok r') : r'.blocks.length = r.blocks.length := by
  obtain ⟨block, -, -, rfl⟩ := adjust_eq_ok_iff.mp h
  exact List.length_set

theorem repeats_adjust (h : r.adjust id delta = .ok r') (hr : ∀ block ∈ r.blocks, block.Repeats) :
    ∀ block ∈ r'.blocks, block.Repeats := by
  obtain ⟨block, hget, -, rfl⟩ := adjust_eq_ok_iff.mp h
  intro other hmem
  rcases List.mem_or_eq_of_mem_set hmem with hmem | rfl
  · exact hr other hmem
  · exact hr block (List.mem_of_getElem? hget)

/-- What a changed count leaves behind at each index. -/
theorem get?_adjust (h : r.adjust id delta = .ok r') {k : Nat} {block' : StepRepeat α}
    (hget : r'.get? k = some block') :
    ∃ block, r.get? k = some block ∧
      (block'.steps : Int) = block.steps + (if k = id then delta else 0) ∧
        (k = id → block'.steps < countLimit) := by
  obtain ⟨block, hid, ⟨hpos, hlt⟩, rfl⟩ := adjust_eq_ok_iff.mp h
  unfold get? at hget hid
  rw [List.getElem?_set] at hget
  by_cases hk : id = k
  · obtain ⟨hbound, -⟩ := List.getElem?_eq_some_iff.mp hid
    rw [if_pos hk, if_pos hbound, Option.some.injEq] at hget
    subst hget hk
    refine ⟨block, hid, ?_, fun _ => ?_⟩
    · rw [if_pos rfl, Int.toNat_of_nonneg hpos]
    · exact (Int.toNat_lt hpos).mpr (by exact_mod_cast hlt)
  · rw [if_neg hk] at hget
    exact ⟨block', hget, by rw [if_neg (Ne.symm hk), Int.add_zero], fun heq => absurd heq.symm hk⟩

/-- The blocks before the one that counts stay as they are. -/
theorem isPrefix_adjust (h : r.adjust id delta = .ok r') {old : List (StepRepeat α)}
    (hold : old <+: r.blocks) (hid : old.length ≤ id) : old <+: r'.blocks := by
  obtain ⟨block, -, -, rfl⟩ := adjust_eq_ok_iff.mp h
  obtain ⟨more, hmore⟩ := hold
  rw [← hmore, List.set_append_right _ _ hid]
  exact List.prefix_append _ _

end StepRepeats

end Gerber
