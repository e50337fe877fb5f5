import Gerber.Proofs.Grid.Runs
import Gerber.Proofs.StepRepeat
import Gerber.Proofs.Stream.Effect

/-!
# Step counts of a stream

A stream opens step-and-repeat blocks of its own and leaves the others alone.  Each of its blocks
counts the steps that are bound to it, and these stand together, since a block that is closed is
never opened again.
-/

namespace Gerber

variable {α : Type}

/-- The index of a block that a stream has opened. -/
def Session.Opened (s t : Session α) (id : Nat) : Prop :=
  s.stepRepeats.blocks.length ≤ id ∧ id < t.stepRepeats.blocks.length

namespace Stream

open Grid

/-- What holds of the counts while a stream is at work: the blocks before it are untouched, its
own blocks count the completed steps that are bound to them, and these stand together, those of
the open block at the end. -/
structure Counting (s : Session α) (cursor : Cursor α) (t : Session α) : Prop where
  old : s.stepRepeats.blocks <+: t.stepRepeats.blocks
  pending : ∀ id, cursor.pending.stepRepeat = some id → s.Opened t id
  completed : ∀ step ∈ cursor.completed, ∀ id, step.stepRepeat = some id → s.Opened t id
  count : ∀ id block, s.stepRepeats.blocks.length ≤ id → t.stepRepeats.get? id = some block →
    block.steps = bound id cursor.completed ∧ block.steps < StepRepeats.countLimit
  oneRun : ∀ id, OneRun id cursor.completed
  latest : ∀ id, cursor.pending.stepRepeat = some id → ∃ run rest,
    cursor.completed = run ++ rest ∧ (∀ step ∈ run, isBound id step) ∧
      ∀ step ∈ rest, ¬ isBound id step

namespace Counting

variable {s u t : Session α} {cursor : Cursor α} {step : Step α}

/-- A command that leaves the blocks alone may close the open one. -/
theorem keep (hc : Counting s cursor u) (hrepeats : t.stepRepeats = u.stepRepeats)
    (hstep : ∀ id, step.stepRepeat = some id → cursor.pending.stepRepeat = some id) :
    Counting s { cursor with pending := step } t where
  old := hrepeats ▸ hc.old
  pending id hid := by
    unfold Session.Opened
    rw [hrepeats]
    exact hc.pending id (hstep id hid)
  completed := by
    unfold Session.Opened
    rw [hrepeats]
    exact hc.completed
  count := hrepeats ▸ hc.count
  oneRun := hc.oneRun
  latest id hid := hc.latest id (hstep id hid)

private theorem unbound_next (hc : Counting s cursor u) :
    ∀ step ∈ cursor.completed, ¬ isBound u.stepRepeats.blocks.length step := by
  intro step hmem hbound
  exact absurd (hc.completed step hmem _ (isBound_iff.mp hbound)).2 (Nat.lt_irrefl _)

theorem opening (hc : Counting s cursor u) {block : StepRepeat α} (hblock : block.steps = 0)
    (hrepeats : t.stepRepeats = u.stepRepeats.add block)
    (hstep : step.stepRepeat = some u.stepRepeats.blocks.length) :
    Counting s { cursor with pending := step } t := by
  have hlength : t.stepRepeats.blocks.length = u.stepRepeats.blocks.length + 1 := by
    rw [hrepeats, StepRepeats.add, List.length_append, List.length_singleton]
  have hold := hc.old.length_le
  exact {
    old := by
      rw [hrepeats]
      exact hc.old.trans (List.prefix_append _ _)
    pending := by
      intro id hid
      obtain rfl := Option.some.inj (hstep.symm.trans hid)
      exact ⟨hold, hlength ▸ Nat.lt_succ_self _⟩
    completed := by
      intro other hmem id hid
      obtain ⟨hle, hlt⟩ := hc.completed other hmem id hid
      exact ⟨hle, hlength ▸ Nat.lt_succ_of_lt hlt⟩
    count := by
      intro id new hle hget
      rw [hrepeats, StepRepeats.add, StepRepeats.get?, List.getElem?_append] at hget
      split at hget
      · exact hc.count id new hle hget
      · rename_i hge
        rw [List.getElem?_singleton] at hget
        split at hget
        · cases hget
          obtain rfl : id = u.stepRepeats.blocks.length := by omega
          rw [hblock, bound_eq_zero hc.unbound_next]
          exact ⟨rfl, by decide⟩
        · cases hget
    oneRun := hc.oneRun
    latest := by
      intro id hid
      obtain rfl := Option.some.inj (hstep.symm.trans hid)
      exact ⟨[], cursor.completed, rfl, by simp, hc.unbound_next⟩ }

private theorem concat_unbound (hc : Counting s cursor u) {next : Step α}
    (hrepeats : t.stepRepeats = u.stepRepeats) (hstep : step.stepRepeat = none)
    (hnext : next.stepRepeat = none) : Counting s ⟨step :: cursor.completed, next⟩ t := by
  have hunbound (id : Nat) : ¬ isBound id step := by simp [isBound, hstep]
  have hkeep : Counting s { cursor with pending := next } t := by
    refine hc.keep hrepeats fun id hid => ?_
    rw [hnext] at hid
    cases hid
  exact {
    old := hkeep.old
    pending := hkeep.pending
    completed := by
      refine List.forall_mem_cons.mpr ⟨fun id hid => ?_, hkeep.completed⟩
      rw [hstep] at hid
      cases hid
    count := by
      intro id block hle hget
      rw [bound_cons, if_neg (hunbound id), Nat.add_zero]
      exact hkeep.count id block hle hget
    oneRun := fun id => (hc.oneRun id).cons (hunbound id)
    latest := by
      intro id hid
      rw [hnext] at hid
      cases hid }

private theorem concat_bound (hc : Counting s cursor u) {next : Step α} {id : Nat}
    (hpending : cursor.pending.stepRepeat = some id)
    (hadjust : u.stepRepeats.adjust id 1 = .ok t.stepRepeats) (hstep : step.stepRepeat = some id)
    (hnext : next.stepRepeat = some id) : Counting s ⟨step :: cursor.completed, next⟩ t := by
  have hlength := StepRepeats.length_adjust hadjust
  have hopened (k : Nat) (hk : s.Opened u k) : s.Opened t k := by
    unfold Session.Opened
    rwa [hlength]
  have hown := hc.pending id hpending
  have hbound : isBound id step := isBound_iff.mpr hstep
  obtain ⟨run, rest, hsplit, hrun, hrest⟩ := hc.latest id hpending
  exact {
    old := StepRepeats.isPrefix_adjust hadjust hc.old hown.1
    pending := by
      intro k hk
      obtain rfl := Option.some.inj (hnext.symm.trans hk)
      exact hopened _ hown
    completed := by
      refine List.forall_mem_cons.mpr ⟨fun k hk => ?_, fun other hmem k hk => ?_⟩
      · obtain rfl := Option.some.inj (hstep.symm.trans hk)
        exact hopened _ hown
      · exact hopened k (hc.completed other hmem k hk)
    count := by
      intro k block' hle hget
      obtain ⟨block, hold, hsteps, hlt⟩ := StepRepeats.get?_adjust hadjust hget
      obtain ⟨hcount, hfits⟩ := hc.count k block hle hold
      rw [bound_cons, ← hcount]
      by_cases hk : k = id
      · rw [if_pos hk] at hsteps
        rw [if_pos (hk ▸ hbound)]
        exact ⟨by exact_mod_cast hsteps, hlt hk⟩
      · have hother : ¬ isBound k step := by
          rw [isBound_iff, hstep, Option.some.injEq]
          exact Ne.symm hk
        rw [if_neg hk, Int.add_zero] at hsteps
        rw [if_neg hother, Nat.add_zero]
        have heq : block'.steps = block.steps := by exact_mod_cast hsteps
        exact ⟨heq, heq ▸ hfits⟩
    oneRun := by
      intro k
      by_cases hk : k = id
      · subst hk
        refine ⟨[], step :: run, rest, by rw [hsplit]; rfl, ?_, by simp, hrest⟩
        exact List.forall_mem_cons.mpr ⟨hbound, hrun⟩
      · refine (hc.oneRun k).cons ?_
        rw [isBound_iff, hstep, Option.some.injEq]
        exact Ne.symm hk
    latest := by
      intro k hk
      obtain rfl := Option.some.inj (hnext.symm.trans hk)
      refine ⟨step :: run, rest, by rw [hsplit]; rfl, ?_, hrest⟩
      exact List.forall_mem_cons.mpr ⟨hbound, hrun⟩ }

end Counting

variable [Scalar α] {setting : Setting α} {s u t : Session α} {cursor : Cursor α} {step : Step α}
  {token : Token} {outcome : Outcome}

theorem Counting.follow (hc : Counting s cursor u)
    (h : Effect setting cursor.pending cursor.last.coord token u outcome step t) :
    Counting s (cursor.follow outcome step) t := by
  cases h with
  | interpolation _ => exact hc.keep rfl fun _ hid => hid
  | polarity _ => exact hc.keep rfl fun _ hid => hid
  | quadrant _ => exact hc.keep rfl fun _ hid => hid
  | select _ _ => exact hc.keep rfl fun _ hid => hid
  | regionBegin _ _ hrepeats => exact hc.keep hrepeats fun _ hid => hid
  | regionEnd _ _ hrepeats => exact hc.keep hrepeats fun _ hid => hid
  | operation _ _ hentered =>
    have hadjust := hentered.stepRepeats
    cases hpending : cursor.pending.stepRepeat with
    | none =>
      rw [hpending] at hadjust
      exact hc.concat_unbound (Except.ok.inj hadjust).symm rfl rfl
    | some id =>
      rw [hpending] at hadjust
      exact hc.concat_bound hpending hadjust rfl rfl
  | repeatOpen _ hblock _ hrepeats =>
    exact hc.opening (StepRepeat.repeats_of_ofCommand hblock).2 hrepeats rfl
  | repeatClose _ hbooks =>
    refine hc.keep hbooks.2 fun _ hid => ?_
    cases hid
  | stop _ hbooks => exact hc.concat_unbound hbooks.2 rfl rfl
  | idle _ hbooks => exact hc.keep hbooks.2 fun _ hid => hid

/-- Nothing is counted before the first command. -/
theorem Counting.initial (s : Session α) : Counting s .initial s where
  old := List.prefix_rfl
  pending _ hid := by cases hid
  completed := List.forall_mem_nil _
  count id block hle hget := by
    rw [StepRepeats.get?, List.getElem?_eq_none hle] at hget
    cases hget
  oneRun _ := oneRun_of_unbound (List.forall_mem_nil _)
  latest _ hid := by cases hid

/-- The counts of a compiled stream. -/
structure Counted (s : Session α) (steps : List (Step α)) (t : Session α) : Prop where
  old : s.stepRepeats.blocks <+: t.stepRepeats.blocks
  opened : ∀ step ∈ steps, ∀ id, step.stepRepeat = some id → s.Opened t id
  count : ∀ id block, s.stepRepeats.blocks.length ≤ id → t.stepRepeats.get? id = some block →
    block.steps = bound id steps ∧ block.steps < StepRepeats.countLimit
  oneRun : ∀ id, OneRun id steps

theorem counted_of_compile {tokens : List Token} {compiled : Compiled α}
    (h : (compile setting tokens).Yields s compiled t) : Counted s compiled.steps t := by
  obtain ⟨final, hadvances, hsteps⟩ := advances_of_compile h
  have hfinal : Counting s final t :=
    hadvances.invariant
      (fun _ _ _ hbooks hc => hc.keep hbooks.2 fun _ hid => hid)
      (fun _ _ _ _ _ _ he hc => hc.follow he) (.initial s)
  have hroot (id : Nat) : ¬ isBound id (Step.root : Step α) := by simp [isBound, Step.root]
  rw [hsteps]
  exact {
    old := hfinal.old
    opened := by
      refine List.forall_mem_cons.mpr ⟨fun id hid => ?_, fun step hmem => ?_⟩
      · cases hid
      · exact hfinal.completed step (List.mem_reverse.mp hmem)
    count := by
      intro id block hle hget
      rw [Cursor.steps, bound_cons, if_neg (hroot id), bound_reverse]
      exact hfinal.count id block hle hget
    oneRun := fun id => (hfinal.oneRun id).reverse.cons (hroot id) }

end Stream

end Gerber
