import Gerber.Proofs.Grid.Copies
import Gerber.Proofs.Inlining.Tally

/-!
# Flashes as they stand

A flash that comes up while steps are inlined stands where the flashes around it show it.  What a
flash shows continues the flash, and so does the step after it; all other steps continue the step
before them.  A run that holds no flash of a block stays joined, wherever it comes up.
-/

namespace Gerber.Inlining

open Grid

variable {α : Type} [Scalar α] {apertures : Apertures α} {steps out main : List (Step α)}
  {step : Step α} {block : BlockAperture α} {E : Coord α → Prop} {prev other : Coord α}
  {id n : Nat}

/-- The steps of a list, and those that its flashes show, one flash inside another. -/
inductive Stands (apertures : Apertures α) (main : List (Step α)) : Step α → Prop
  | listed {step : Step α} : step ∈ main → Stands apertures main step
  | shown {flash step : Step α} {block : BlockAperture α} :
      Stands apertures main flash → Flashes apertures flash block →
      step ∈ seenAll flash block.kept → Stands apertures main step

/-- The coordinate of a flash of a block, as it stands. -/
def FlashPoint (apertures : Apertures α) (main : List (Step α)) (c : Coord α) : Prop :=
  ∃ flash block, Stands apertures main flash ∧ Flashes apertures flash block ∧ flash.coord = c

/-- No flash of a block is bound to the step-and-repeat block `id`. -/
def Plain (apertures : Apertures α) (main : List (Step α)) (id : Nat) : Prop :=
  ∀ flash block, Stands apertures main flash → Flashes apertures flash block →
    flash.stepRepeat ≠ some id

private theorem stands_round (h : ∀ step ∈ steps, Stands apertures main step) :
    ∀ step ∈ round apertures steps, Stands apertures main step := by
  intro step hmem
  obtain ⟨flash, hflash, hstep⟩ := mem_round_iff.mp hmem
  cases hf : flashed? apertures flash with
  | none =>
    rw [replace_of_none hf, List.mem_singleton] at hstep
    exact hstep ▸ h flash hflash
  | some block =>
    rw [replace_of_some hf] at hstep
    exact .shown (h flash hflash) (flashed?_eq_some_iff.mp hf) hstep

private theorem exists_showing {flash : Step α} (h : Expansion apertures steps out)
    (hmem : flash ∈ steps) (hflash : Flashes apertures flash block) :
    ∃ shown, Expansion apertures (seenAll flash block.kept) shown ∧ ∀ step ∈ shown, step ∈ out := by
  obtain ⟨before, after, hsplit⟩ := List.append_of_mem hmem
  rw [hsplit] at h
  obtain ⟨left, right, rfl, -, hright⟩ := h.exists_of_append
  cases hright with
  | keep hkeep _ => exact absurd hflash (hkeep block)
  | @flash _ _ _ shown last hother hshown _ =>
    obtain rfl := hflash.unique hother
    refine ⟨shown, hshown, ?_⟩
    intro step hstep
    exact List.mem_append_right left (List.mem_append_left last hstep)

/-- A flash of a block that flashes nothing itself shows the steps of the block as they are. -/
theorem shows_of_flat {flash : Step α} (h : Expansion apertures steps out) (hmem : flash ∈ steps)
    (hflash : Flashes apertures flash block)
    (hflat : ∀ inner ∈ block.kept, flashed? apertures inner = none) :
    ∀ step ∈ seenAll flash block.kept, step ∈ out := by
  obtain ⟨shown, hshown, hall⟩ := exists_showing h hmem hflash
  have hself : ∀ step ∈ seenAll flash block.kept, flashed? apertures step = none := by
    intro step hstep
    obtain ⟨inner, hinner, prev, rfl⟩ := mem_seenAll hstep
    exact hflat inner hinner
  rwa [(Expansion.refl hself).unique hshown] at hall

private theorem chained_seenAll (flash : Step α) (inner : List (Step α)) :
    Chained E flash.coord (seenAll flash inner) := by
  have hplaced (prev : Coord α) : Chained E prev (placed flash prev inner) := by
    induction inner generalizing prev with
    | nil => trivial
    | cons step rest ih => exact ⟨.inl rfl, ih _⟩
  have h := hplaced flash.coord
  rwa [placed_eq_zipWith] at h

private theorem chained_round (h : Chained E prev steps)
    (hE : ∀ flash ∈ steps, ∀ block, Flashes apertures flash block → E flash.coord)
    (hstart : other = prev ∨ E prev) : Chained E other (round apertures steps) := by
  induction steps generalizing prev other with
  | nil => trivial
  | cons step rest ih =>
    obtain ⟨hstep, hrest⟩ := List.forall_mem_cons.mp hE
    rw [round_cons, chained_append]
    cases hf : flashed? apertures step with
    | none =>
      rw [replace_of_none hf]
      exact ⟨⟨(h.of_start hstart).1, trivial⟩, ih h.2 hrest (.inl rfl)⟩
    | some block =>
      have hpoint := hstep block (flashed?_eq_some_iff.mp hf)
      rw [replace_of_some hf]
      exact ⟨(chained_seenAll step block.kept).of_start (.inr hpoint), ih h.2 hrest (.inr hpoint)⟩

private theorem laid_replace (hblocks : Holds apertures id n) (ht : HoldsTogether apertures id)
    (hstep : ¬ isBound id step) : Laid id n (replace apertures step) := by
  by_cases hbrings : bringsUp apertures id step
  · obtain ⟨hnone, block, hf, hpos⟩ := bringsUp_iff.mp hbrings
    obtain ⟨-, code, -, hblock⟩ := flashed?_eq_some_iff.mp hf
    have hn : bound id (replace apertures step) = n := by
      rw [replace_of_some hf, bound_seenAll_of_unbound hnone]
      exact (hblocks code block hblock).resolve_left hpos.ne'
    have hchain : Chained (fun _ => False) step.coord (replace apertures step) := by
      rw [replace_of_some hf]
      exact chained_seenAll step block.kept
    exact (oneRun_replace ht hbrings).laid hchain (.inr hn)
  · exact laid_of_unbound (unbound_replace hstep hbrings)

private theorem laid_round (hblocks : Holds apertures id n) (ht : HoldsTogether apertures id)
    (h : Laid id n steps)
    (hplain : ∀ step ∈ steps, isBound id step → flashed? apertures step = none) :
    Laid id n (round apertures steps) := by
  induction h with
  | nil => exact .nil
  | skip hstep _ ih =>
    rw [round_cons]
    exact (laid_replace hblocks ht hstep).append (ih (List.forall_mem_cons.mp hplain).2)
  | @run run rest hrun hlength hjoined _ ih =>
    obtain ⟨hown, hrest⟩ := List.forall_mem_append.mp hplain
    rw [round_append, round_of_no_flash fun step hmem => hown step hmem (hrun step hmem)]
    exact .run hrun hlength hjoined (ih hrest)

private theorem Plain.flashed?_eq_none (h : Plain apertures main id)
    (hstands : Stands apertures main step)
    (hstep : isBound id step) : flashed? apertures step = none := by
  rw [flashed?_eq_none_iff]
  intro block hflash
  exact h step block hstands hflash (isBound_iff.mp hstep)

theorem stands_iterate (k : Nat) :
    ∀ step ∈ (round apertures)^[k] main, Stands apertures main step := by
  induction k with
  | zero => exact fun step hmem => .listed hmem
  | succ k ih =>
    rw [Function.iterate_succ_apply']
    exact stands_round ih

theorem chained_iterate (h : Chained (fun _ => False) prev main) (k : Nat) :
    Chained (FlashPoint apertures main) prev ((round apertures)^[k] main) := by
  induction k with
  | zero => exact h.mono fun _ hfalse => hfalse.elim
  | succ k ih =>
    rw [Function.iterate_succ_apply']
    apply chained_round ih ?_ (.inl rfl)
    intro flash hmem block hflash
    exact ⟨flash, block, stands_iterate k flash hmem, hflash, rfl⟩

theorem laid_iterate (hblocks : Holds apertures id n) (ht : HoldsTogether apertures id)
    (h : Laid id n main) (hplain : Plain apertures main id) (k : Nat) :
    Laid id n ((round apertures)^[k] main) := by
  induction k with
  | zero => exact h
  | succ k ih =>
    rw [Function.iterate_succ_apply']
    apply laid_round hblocks ht ih
    intro step hmem hstep
    exact hplain.flashed?_eq_none (stands_iterate k step hmem) hstep

theorem Plain.steady (h : Plain apertures main id) (k : Nat) : Steady apertures id main k := by
  intro j _ step hmem
  by_cases hstep : isBound id step
  · exact growth_of_none (h.flashed?_eq_none (stands_iterate j step hmem) hstep) id
  · exact growth_of_not_bound hstep

end Gerber.Inlining
