import Gerber.Proofs.Inlining.Frame
import Gerber.Proofs.Stream.Counts
import Mathlib.Logic.Function.Iterate

/-!
# When inlining goes through

A flash that is replaced changes the count of its step-and-repeat block by the number of steps that
it brings up, less one.  These changes add up over the flashes of a pass and over the passes, and
inlining fails with a count if and only if one of the sums takes a count out of its range.
-/

namespace Gerber.Inlining

open Grid

variable {α : Type}

/-- The counts of two sessions differ by `delta`. -/
structure Shifted (delta : Nat → Int) (s t : Session α) : Prop where
  length : t.stepRepeats.blocks.length = s.stepRepeats.blocks.length
  steps : ∀ id block', t.stepRepeats.get? id = some block' →
    ∃ block, s.stepRepeats.get? id = some block ∧ (block'.steps : Int) = block.steps + delta id

/-- All counts stay in range if they are changed by `delta`. -/
def InRange (s : Session α) (delta : Nat → Int) : Prop :=
  ∀ id block, s.stepRepeats.get? id = some block →
    0 ≤ block.steps + delta id ∧ block.steps + delta id < StepRepeats.countLimit

section

variable {delta delta' : Nat → Int} {s t u : Session α}

private theorem Shifted.of_sameBooks (h : s.SameBooks t) : Shifted (fun _ => 0) s t where
  length := by rw [h.2]
  steps id block' hget := ⟨block', h.2 ▸ hget, (Int.add_zero _).symm⟩

theorem Shifted.trans (h : Shifted delta s u) (h' : Shifted delta' u t) :
    Shifted (fun id => delta id + delta' id) s t where
  length := h'.length.trans h.length
  steps id block' hget := by
    obtain ⟨mid, hmid, hsteps'⟩ := h'.steps id block' hget
    obtain ⟨block, hblock, hsteps⟩ := h.steps id mid hmid
    exact ⟨block, hblock, by rw [hsteps', hsteps, Int.add_assoc]⟩

theorem Shifted.exists_get? (h : Shifted delta s t) {id : Nat} {block : StepRepeat α}
    (hget : s.stepRepeats.get? id = some block) :
    ∃ block', t.stepRepeats.get? id = some block' ∧
      (block'.steps : Int) = block.steps + delta id := by
  have hlt : id < t.stepRepeats.blocks.length := by
    rw [h.length]
    exact (List.getElem?_eq_some_iff.mp hget).1
  obtain ⟨block', hget'⟩ := StepRepeats.exists_get? hlt
  obtain ⟨old, hold, hsteps⟩ := h.steps id block' hget'
  cases hget.symm.trans hold
  exact ⟨block', hget', hsteps⟩

private theorem inRange_shifted_iff (h : Shifted delta s t) :
    InRange t delta' ↔ InRange s fun id => delta id + delta' id := by
  constructor
  · intro hr id block hget
    obtain ⟨block', hget', hsteps⟩ := h.exists_get? hget
    have hblock := hr id block' hget'
    rwa [hsteps, Int.add_assoc] at hblock
  · intro hr id block' hget'
    obtain ⟨block, hget, hsteps⟩ := h.steps id block' hget'
    rw [hsteps, Int.add_assoc]
    exact hr id block hget

theorem inRange_zero_iff :
    (InRange s fun _ => 0) ↔
      ∀ id block, s.stepRepeats.get? id = some block → block.steps < StepRepeats.countLimit := by
  unfold InRange
  simp only [Int.add_zero]
  constructor
  · intro h id block hget
    exact_mod_cast (h id block hget).2
  · intro h id block hget
    exact ⟨Int.natCast_nonneg _, by exact_mod_cast h id block hget⟩

private theorem inRange_congr (h : ∀ id, delta id = delta' id) :
    InRange s delta ↔ InRange s delta' := by
  rw [funext h]

end

/-- What the replacement of a step adds to the steps that are bound to a block, if the step is bound
to it. -/
def growth (apertures : Apertures α) (id : Nat) (step : Step α) : Int :=
  match flashed? apertures step with
  | some block => if isBound id step then (block.kept.length : Int) - 1 else 0
  | none => 0

/-- What a pass over a list adds to the steps that are bound to a block. -/
def grown (apertures : Apertures α) (id : Nat) : List (Step α) → Int
  | [] => 0
  | step :: rest => growth apertures id step + grown apertures id rest

variable {apertures : Apertures α} {steps : List (Step α)} {s t u : Session α} {step : Step α}
  {block : BlockAperture α}

theorem growth_of_none (h : flashed? apertures step = none) (id : Nat) :
    growth apertures id step = 0 := by
  simp [growth, h]

theorem growth_of_some (h : flashed? apertures step = some block) (id : Nat) :
    growth apertures id step = if isBound id step then (block.kept.length : Int) - 1 else 0 := by
  simp [growth, h]

theorem grown_nil (id : Nat) : grown apertures id [] = 0 := rfl

theorem grown_cons (apertures : Apertures α) (id : Nat) (step : Step α) (rest : List (Step α)) :
    grown apertures id (step :: rest) = growth apertures id step + grown apertures id rest :=
  rfl

theorem grown_of_no_growth {id : Nat} (h : ∀ step ∈ steps, growth apertures id step = 0) :
    grown apertures id steps = 0 := by
  induction steps with
  | nil => rfl
  | cons step rest ih =>
    obtain ⟨hstep, hrest⟩ := List.forall_mem_cons.mp h
    rw [grown_cons, hstep, ih hrest, Int.add_zero]

private theorem grown_of_no_flash (h : ∀ step ∈ steps, flashed? apertures step = none) (id : Nat) :
    grown apertures id steps = 0 :=
  grown_of_no_growth fun step hmem => growth_of_none (h step hmem) id

theorem growth_of_not_bound {id : Nat} (h : ¬ isBound id step) : growth apertures id step = 0 := by
  cases hf : flashed? apertures step with
  | none => exact growth_of_none hf id
  | some block => rw [growth_of_some hf, if_neg h]

theorem growth_of_unbound (h : step.stepRepeat = none) (id : Nat) :
    growth apertures id step = 0 :=
  growth_of_not_bound (by simp [isBound, h])

private theorem adjust_of_inRange (hf : flashed? apertures step = some block)
    (hid : ∀ id, step.stepRepeat = some id → id < s.stepRepeats.blocks.length)
    (hr : InRange s (growth apertures · step)) :
    ∃ u, (Run.forSome step.stepRepeat
        (Run.adjustRepeat · ((block.kept.length : Int) - 1)) : Run α Unit).Yields s () u ∧
      Shifted (growth apertures · step) s u := by
  cases hstep : step.stepRepeat with
  | none =>
    rw [funext (growth_of_unbound hstep)]
    exact ⟨s, Run.yields_pure.mpr ⟨rfl, rfl⟩, .of_sameBooks (.refl s)⟩
  | some k =>
    have hgrowth (id : Nat) :
        growth apertures id step = if id = k then (block.kept.length : Int) - 1 else 0 := by
      rw [growth_of_some hf]
      simp only [isBound_iff, hstep, Option.some.injEq, @eq_comm _ k]
    obtain ⟨old, hget⟩ := StepRepeats.exists_get? (hid k hstep)
    have hrange := hr k _ hget
    simp only [hgrowth, if_true] at hrange
    have hadjust := StepRepeats.adjust_eq_ok_iff.mpr ⟨_, hget, hrange, rfl⟩
    refine ⟨_, Run.yields_adjustRepeat.mpr ⟨_, hadjust, rfl⟩, StepRepeats.length_adjust hadjust, ?_⟩
    intro id block' hget'
    obtain ⟨old, hold, hsteps, -⟩ := StepRepeats.get?_adjust hadjust hget'
    exact ⟨old, hold, by rw [hsteps, hgrowth]⟩

private theorem adjust_of_not_inRange (hf : flashed? apertures step = some block)
    (hid : ∀ id, step.stepRepeat = some id → id < s.stepRepeats.blocks.length)
    (hfits : InRange s fun _ => 0) (hr : ¬ InRange s (growth apertures · step)) :
    ∃ fault, (Run.forSome step.stepRepeat
        (Run.adjustRepeat · ((block.kept.length : Int) - 1)) : Run α Unit).Fails s
      { fault := .stepRepeat fault } s := by
  cases hstep : step.stepRepeat with
  | none =>
    rw [funext (growth_of_unbound hstep)] at hr
    exact absurd hfits hr
  | some k =>
    obtain ⟨old, hget⟩ := StepRepeats.exists_get? (hid k hstep)
    cases hadjust : s.stepRepeats.adjust k ((block.kept.length : Int) - 1) with
    | error fault =>
      obtain ⟨e, rfl⟩ := StepRepeats.fault_of_adjust hget hadjust
      exact ⟨e, Run.fails_adjustRepeat.mpr ⟨_, hadjust, rfl, rfl⟩⟩
    | ok repeats =>
      refine absurd (fun id other hother => ?_) hr
      obtain ⟨_, hget', hrange, -⟩ := StepRepeats.adjust_eq_ok_iff.mp hadjust
      by_cases hbound : isBound id step
      · obtain rfl := Option.some.inj (hstep.symm.trans (isBound_iff.mp hbound))
        cases hother.symm.trans hget'
        simp only [growth_of_some hf]
        rwa [if_pos hbound]
      · simp only [growth_of_not_bound hbound]
        exact hfits id other hother

/-- Every count stays in range at every moment of a pass. -/
def PassFits (apertures : Apertures α) (s : Session α) (steps : List (Step α)) : Prop :=
  ∀ before after, steps = before ++ after → InRange s (grown apertures · before)

private theorem passFits_nil_iff : PassFits apertures s [] ↔ InRange s fun _ => 0 := by
  constructor
  · intro h
    exact h [] [] rfl
  · intro h before after hsplit
    obtain ⟨rfl, -⟩ := List.append_eq_nil_iff.mp hsplit.symm
    exact h

private theorem passFits_cons_iff {rest : List (Step α)}
    (h : Shifted (growth apertures · step) s u) :
    PassFits apertures s (step :: rest) ↔ (InRange s fun _ => 0) ∧ PassFits apertures u rest := by
  have hcons (before : List (Step α)) :
      InRange u (grown apertures · before) ↔ InRange s (grown apertures · (step :: before)) := by
    rw [inRange_shifted_iff h]
    exact inRange_congr fun id => (grown_cons apertures id step before).symm
  constructor
  · intro hp
    refine ⟨hp [] (step :: rest) rfl, fun before after hsplit => ?_⟩
    exact (hcons before).mpr (hp (step :: before) after (by rw [hsplit]; rfl))
  · rintro ⟨hstart, hp⟩ before after hsplit
    cases before with
    | nil => exact hstart
    | cons first before =>
      obtain ⟨rfl, hrest⟩ := List.cons_eq_cons.mp hsplit
      exact (hcons before).mp (hp before after hrest)

theorem PassFits.growth {rest : List (Step α)} (h : PassFits apertures s (step :: rest)) :
    InRange s (growth apertures · step) := by
  have hstep := h [step] rest rfl
  exact (inRange_congr fun id => by rw [grown_cons, grown_nil, Int.add_zero]).mp hstep

variable [Scalar α]

/-- A pass goes through if it keeps the counts in range, and then changes them by what grew.
Otherwise it fails with a count. -/
private theorem pass_outcome (apertures : Apertures α)
    (hid : ∀ step ∈ steps, ∀ id, step.stepRepeat = some id → id < s.stepRepeats.blocks.length)
    (hfits : InRange s fun _ => 0) (done : List (Step α)) (count : Nat) :
    (PassFits apertures s steps ∧ ∃ result t,
      (pass apertures done count steps).Yields s result t ∧ Shifted (grown apertures · steps) s t) ∨
    (¬ PassFits apertures s steps ∧ ∃ fault t,
      (pass apertures done count steps).Fails s { fault := .stepRepeat fault } t) := by
  -- the session after the first step takes the place of `s` for the rest of the pass
  induction steps generalizing s done count with
  | nil =>
    exact .inl ⟨passFits_nil_iff.mpr hfits, _, s, Run.yields_pure.mpr ⟨rfl, rfl⟩,
      .of_sameBooks (.refl s)⟩
  | cons step rest ih =>
    obtain ⟨hstep, hrest⟩ := List.forall_mem_cons.mp hid
    have hgrown := funext fun id => grown_cons apertures id step rest
    cases hf : flashed? apertures step with
    | none =>
      have hshift : Shifted (growth apertures · step) s s := by
        rw [funext (growth_of_none hf)]
        exact .of_sameBooks (.refl s)
      rw [pass_cons_none hf, passFits_cons_iff hshift, hgrown]
      rcases ih hrest hfits (step :: done) count with ⟨hp, result, t, hyields, hall⟩ | ⟨hp, hfails⟩
      · exact .inl ⟨⟨hfits, hp⟩, result, t, hyields, hshift.trans hall⟩
      · exact .inr ⟨fun h => hp h.2, hfails⟩
    | some block =>
      rw [pass_cons_some hf]
      by_cases hr : InRange s (growth apertures · step)
      · obtain ⟨u, hadjust, hshift⟩ := adjust_of_inRange hf hstep hr
        have hfits' : InRange u fun _ => 0 := by
          rw [inRange_shifted_iff hshift]
          exact (inRange_congr fun id => Int.add_zero _).mpr hr
        have hrest' : ∀ other ∈ rest, ∀ id, other.stepRepeat = some id →
            id < u.stepRepeats.blocks.length := by
          rw [hshift.length]
          exact hrest
        rw [passFits_cons_iff hshift, hgrown]
        rcases ih hrest' hfits' ((replace apertures step).reverse ++ done) (count + 1) with
          ⟨hp, result, t, hyields, hall⟩ | ⟨hp, fault, t, hfails⟩
        · exact .inl ⟨⟨hfits, hp⟩, result, t, Run.yields_bind.mpr ⟨(), u, hadjust, hyields⟩,
            hshift.trans hall⟩
        · exact .inr ⟨fun h => hp h.2, fault, t, Run.fails_bind.mpr (.inr ⟨(), u, hadjust, hfails⟩)⟩
      · obtain ⟨fault, hadjust⟩ := adjust_of_not_inRange hf hstep hfits hr
        exact .inr ⟨fun h => hr h.growth, fault, s, Run.fails_bind.mpr (.inl hadjust)⟩

/-- What a number of passes add to the steps that are bound to a block. -/
def grownBy (apertures : Apertures α) (id : Nat) (steps : List (Step α)) : Nat → Int
  | 0 => 0
  | k + 1 =>
    grownBy apertures id steps k + grown apertures id ((round apertures)^[k] steps)

/-- Every count stays in range at every moment of the passes up to number `k`, counted from zero. -/
def Fits (apertures : Apertures α) (s : Session α) (steps : List (Step α)) (k : Nat) : Prop :=
  ∀ j ≤ k, ∀ before after, (round apertures)^[j] steps = before ++ after →
    InRange s fun id => grownBy apertures id steps j + grown apertures id before

private theorem grownBy_succ (apertures : Apertures α) (id : Nat) (steps : List (Step α))
    (k : Nat) : grownBy apertures id steps (k + 1) =
      grown apertures id steps + grownBy apertures id (round apertures steps) k := by
  induction k with
  | zero => simp [grownBy]
  | succ k ih => rw [grownBy, ih, grownBy, Function.iterate_succ_apply, Int.add_assoc]

private theorem fits_zero_iff : Fits apertures s steps 0 ↔ PassFits apertures s steps := by
  simp [Fits, PassFits, grownBy]

private theorem fits_succ_iff {k : Nat} (h : Shifted (grown apertures · steps) s u) :
    Fits apertures s steps (k + 1) ↔
      PassFits apertures s steps ∧ Fits apertures u (round apertures steps) k := by
  have hsucc (j : Nat) (before : List (Step α)) :
      (InRange u fun id => grownBy apertures id (round apertures steps) j +
          grown apertures id before) ↔
        InRange s fun id => grownBy apertures id steps (j + 1) + grown apertures id before := by
    rw [inRange_shifted_iff h]
    exact inRange_congr fun id => by rw [grownBy_succ, Int.add_assoc]
  constructor
  · intro hk
    refine ⟨fits_zero_iff.mp fun j hj => hk j (by omega), fun j hj before after hsplit => ?_⟩
    exact (hsucc j before).mpr (hk (j + 1) (by omega) before after hsplit)
  · rintro ⟨hp, hk⟩ j hj before after hsplit
    cases j with
    | zero => exact fits_zero_iff.mpr hp 0 (Nat.le_refl 0) before after hsplit
    | succ j => exact (hsucc j before).mp (hk j (by omega) before after hsplit)

private theorem iterate_of_no_flash (h : ∀ step ∈ steps, flashed? apertures step = none) (k : Nat) :
    (round apertures)^[k] steps = steps :=
  Function.iterate_fixed (round_of_no_flash h) k

private theorem grownBy_of_no_flash (h : ∀ step ∈ steps, flashed? apertures step = none)
    (k id : Nat) : grownBy apertures id steps k = 0 := by
  induction k with
  | zero => rfl
  | succ k ih =>
    rw [grownBy, iterate_of_no_flash h, ih, grown_of_no_flash h, Int.add_zero]

private theorem fits_of_no_flash (h : ∀ step ∈ steps, flashed? apertures step = none)
    (hfits : InRange s fun _ => 0) (k : Nat) : Fits apertures s steps k := by
  intro j _ before after hsplit
  rw [iterate_of_no_flash h] at hsplit
  have hbefore : ∀ step ∈ before, flashed? apertures step = none := fun step hmem =>
    h step (hsplit ▸ List.mem_append_left after hmem)
  refine (inRange_congr fun id => ?_).mpr hfits
  rw [grownBy_of_no_flash h, grown_of_no_flash hbefore, Int.add_zero]

/-- The steps come to their expansion once no flash is left. -/
theorem expansion_iterate {k : Nat} (h : DepthAtMost apertures k steps) :
    Expansion apertures steps ((round apertures)^[k] steps) := by
  induction k generalizing steps with
  | zero => exact .refl (depthAtMost_zero_iff.mp h)
  | succ k ih => exact expansion_round_iff.mp (ih (depthAtMost_round_iff.mpr h))

/-- Passes fail with a count if they take one out of its range.  If they do not, then the depth of
the flashes decides whether they settle, and the counts have changed by what grew. -/
theorem passes_outcome (hc : Closed apertures s) (hr : ∀ step ∈ steps, step.Refers apertures s)
    (hfits : InRange s fun _ => 0) (limit left : Nat) :
    (¬ Fits apertures s steps left ∧ ∃ fault t,
      (passes apertures limit left steps).Fails s { fault := .stepRepeat fault } t) ∨
    (Fits apertures s steps left ∧ DepthAtMost apertures left steps ∧ ∃ t,
      (passes apertures limit left steps).Yields s ((round apertures)^[left] steps) t ∧
        Shifted (grownBy apertures · steps left) s t) ∨
    (Fits apertures s steps left ∧ ¬ DepthAtMost apertures left steps ∧ ∃ t,
      (passes apertures limit left steps).Fails s { fault := .unwindLimit limit } t) := by
  induction left using Nat.strongRecOn generalizing steps s with
  | ind left ih =>
    by_cases hz : flashCount apertures steps = 0
    · -- nothing is left to be replaced, so all passes that are left keep everything
      have hflash := flashCount_eq_zero_iff.mp hz
      refine .inr (.inl ⟨fits_of_no_flash hflash hfits left,
        (depthAtMost_zero_iff.mpr hflash).mono (Nat.zero_le _), s, ?_, ?_⟩)
      · rw [iterate_of_no_flash hflash]
        exact passes_of_no_flash hz limit left s
      · rw [funext (grownBy_of_no_flash hflash left)]
        exact .of_sameBooks (.refl s)
    have hid : ∀ step ∈ steps, ∀ id, step.stepRepeat = some id → id < s.stepRepeats.blocks.length :=
      fun step hmem => (hr step hmem).stepRepeat
    rcases pass_outcome apertures hid hfits [] 0 with
      ⟨hp, ⟨done, count⟩, u, hpass, hshift⟩ | ⟨hp, fault, t, hpass⟩
    · have hresult := pass_yields hpass
      simp only [List.append_nil, Nat.zero_add] at hresult
      obtain ⟨rfl, rfl⟩ := hresult
      cases left with
      | zero =>
        -- the counts are changed before the limit is seen
        refine .inr (.inr ⟨fits_zero_iff.mpr hp, fun hd => ?_,
          noted limit 0 (flashCount apertures steps) u, ?_⟩)
        · exact hz (flashCount_eq_zero_iff.mpr (depthAtMost_zero_iff.mp hd))
        · exact (fails_passes_iff hz).mpr (.inr ⟨u, hpass, .inl ⟨rfl, rfl, rfl⟩⟩)
      | succ left =>
        have hnoted : Shifted (grown apertures · steps) s
            (noted limit (left + 1) (flashCount apertures steps) u) :=
          ⟨hshift.length, hshift.steps⟩
        have hgrows : s.Grows (noted limit (left + 1) (flashCount apertures steps) u) :=
          (grows_of_pass hpass).trans (sameBooks_noted ..).grows
        have hfits' :
            InRange (noted limit (left + 1) (flashCount apertures steps) u) fun _ => 0 := by
          rw [inRange_shifted_iff hnoted]
          simpa using hp steps [] (List.append_nil steps).symm
        have hr' := fun step hmem =>
          (refers_round hc hr step hmem).mono (fun _ hcode => hcode) hgrows
        rw [fits_succ_iff hnoted, ← depthAtMost_round_iff, Function.iterate_succ_apply,
          funext fun id => grownBy_succ apertures id steps left]
        rcases ih left (Nat.lt_succ_self left) (hc.mono hgrows) hr' hfits' with
          ⟨hfit, fault, t, hrest⟩ | ⟨hfit, hd, t, hrest, hshift'⟩ | ⟨hfit, hd, t, hrest⟩
        · refine .inl ⟨fun h => hfit h.2, fault, t, ?_⟩
          exact (fails_passes_iff hz).mpr (.inr ⟨u, hpass, .inr ⟨left, rfl, hrest⟩⟩)
        · refine .inr (.inl ⟨⟨hp, hfit⟩, hd, t, ?_, hnoted.trans hshift'⟩)
          exact (yields_passes_iff hz).mpr ⟨left, u, rfl, hpass, hrest⟩
        · refine .inr (.inr ⟨⟨hp, hfit⟩, hd, t, ?_⟩)
          exact (fails_passes_iff hz).mpr (.inr ⟨u, hpass, .inr ⟨left, rfl, hrest⟩⟩)
    · refine .inl ⟨fun h => hp (fits_zero_iff.mp fun j hj => h j (by omega)), fault, t, ?_⟩
      exact (fails_passes_iff hz).mpr (.inl hpass)

end Gerber.Inlining
