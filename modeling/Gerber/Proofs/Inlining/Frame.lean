import Gerber.Proofs.Inlining.Expansion
import Gerber.Proofs.Stream.Frame
import Gerber.Proofs.Stream.References

/-!
# What inlining keeps

Inlining keeps the frame of a stream: no stop of a block comes up, and the stop of the stream stays
the last step.  What comes up refers to what exists, if all blocks do.
-/

namespace Gerber.Inlining

variable {α : Type} [Scalar α] {apertures : Apertures α} {steps out : List (Step α)}
  {s t : Session α}

/-- What every pass keeps, inlining keeps, and it leaves no block flash. -/
theorem Settles.invariant {P : List (Step α) → Prop} (hround : ∀ l, P l → P (round apertures l))
    {limit left : Nat} (h : Settles apertures limit left steps s out t) (hsteps : P steps) :
    P out ∧ flashCount apertures out = 0 := by
  induction h with
  | done hz => exact ⟨hsteps, hz⟩
  | pass _ _ ih => exact ih (hround _ hsteps)

theorem grows_of_pass {done : List (Step α)} {count : Nat} {result : List (Step α) × Nat}
    (h : (pass apertures done count steps).Yields s result t) : s.Grows t := by
  induction steps generalizing done count s with
  | nil =>
    rw [pass, Run.yields_pure] at h
    exact h.2 ▸ .refl _
  | cons step rest ih =>
    cases hf : flashed? apertures step with
    | none =>
      rw [pass_cons_none hf] at h
      exact ih h
    | some block =>
      rw [pass_cons_some hf, Run.yields_bind] at h
      obtain ⟨_, u, hadjust, h⟩ := h
      obtain ⟨repeats, hrepeats, rfl⟩ := Run.yields_forSome_adjustRepeat.mp hadjust
      have hstep : s.Grows { s with stepRepeats := repeats } :=
        Stream.grows_of_adjust rfl hrepeats
      exact hstep.trans (ih h)

omit [Scalar α] in
theorem sameBooks_noted (limit left count : Nat) (s : Session α) :
    s.SameBooks (noted limit left count s) :=
  ⟨rfl, rfl⟩

theorem Settles.grows {limit left : Nat} (h : Settles apertures limit left steps s out t) :
    s.Grows t := by
  induction h with
  | done _ => exact .refl _
  | pass hpass _ ih => exact ((grows_of_pass hpass).trans (sameBooks_noted ..).grows).trans ih

theorem mem_round_iff {step : Step α} :
    step ∈ round apertures steps ↔ ∃ origin ∈ steps, step ∈ replace apertures origin :=
  List.mem_flatMap

omit [Scalar α] in
private theorem quiet_kept (block : BlockAperture α) : Quiet block.kept := by
  intro step hmem
  exact of_decide_eq_true (List.mem_filter.mp hmem).2

private theorem quiet_round (h : Quiet steps) : Quiet (round apertures steps) := by
  intro step hmem
  obtain ⟨origin, horigin, hstep⟩ := mem_round_iff.mp hmem
  cases hf : flashed? apertures origin with
  | none =>
    rw [replace_of_none hf, List.mem_singleton] at hstep
    exact hstep ▸ h origin horigin
  | some block =>
    rw [replace_of_some hf] at hstep
    obtain ⟨inner, hinner, p, rfl⟩ := mem_seenAll hstep
    exact quiet_kept block inner hinner

private theorem replace_of_ne_flash {step : Step α} (h : step.action ≠ .flash) :
    replace apertures step = [step] :=
  replace_of_none (flashed?_eq_none_iff.mpr fun _ hf => h hf.1)

theorem framed_round {stopped : Bool} (h : Framed stopped steps) :
    Framed stopped (round apertures steps) := by
  have hroot : replace apertures (Step.root : Step α) = [Step.root] :=
    replace_of_ne_flash (by simp [Step.root])
  cases h with
  | unstopped hq =>
    rw [round_cons, hroot]
    exact .unstopped (quiet_round hq)
  | stopped hq hstop hlast =>
    rw [round_cons, hroot, round_append, round_cons, replace_of_ne_flash (by simp [hstop])]
    exact .stopped (quiet_round hq) hstop hlast

/-- The steps of all blocks of a table refer to what exists. -/
def Closed (apertures : Apertures α) (s : Session α) : Prop :=
  ∀ code block, apertures.block? code = some block →
    ∀ step ∈ block.steps, step.Refers apertures s

omit [Scalar α] in
theorem Closed.mono (hc : Closed apertures s) (h : s.Grows t) : Closed apertures t :=
  fun code block hblock step hmem =>
    (hc code block hblock step hmem).mono (fun _ hcode => hcode) h

theorem refers_round (hc : Closed apertures s) (h : ∀ step ∈ steps, step.Refers apertures s) :
    ∀ step ∈ round apertures steps, step.Refers apertures s := by
  intro step hmem
  obtain ⟨origin, horigin, hstep⟩ := mem_round_iff.mp hmem
  have hflash := h origin horigin
  cases hf : flashed? apertures origin with
  | none =>
    rw [replace_of_none hf, List.mem_singleton] at hstep
    exact hstep ▸ hflash
  | some block =>
    rw [replace_of_some hf] at hstep
    obtain ⟨inner, hinner, p, rfl⟩ := mem_seenAll hstep
    obtain ⟨-, code, -, hblock⟩ := flashed?_eq_some_iff.mp hf
    have hown := hc code block hblock inner (List.mem_of_mem_tail (List.mem_filter.mp hinner).1)
    refine ⟨hown.aperture, hown.region, fun id hid => ?_⟩
    rcases Option.or_eq_some_iff.mp hid with hid | ⟨-, hid⟩
    · exact hflash.stepRepeat id hid
    · exact hown.stepRepeat id hid

end Gerber.Inlining
