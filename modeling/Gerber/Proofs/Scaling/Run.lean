import Gerber.Proofs.Run
import Gerber.Proofs.Scaling.Lengths

/-!
# Scaled runs

Two runs over the same commands, of which the second has all lengths multiplied by a factor, stay in
step: from sessions whose books are scaled they come to scaled values and scaled books, or they fail
with the same error.  Notices tell lengths too and are left aside.
-/

namespace Gerber

variable {α β γ δ ε : Type} [Scalar α]

/-- The books of the second session are those of the first with all lengths multiplied. -/
structure Session.Scaled (k : α) (s s' : Session α) : Prop where
  regions : s'.regions = s.regions.scale k
  stepRepeats : s'.stepRepeats = s.stepRepeats.scale k

/-- The second run comes to what `f` makes of the value that the first run comes to, or fails as the
first run fails. -/
structure Run.Scaled (k : α) (f : β → γ) (run : Run α β) (run' : Run α γ) : Prop where
  yields : ∀ {s s' b t}, s.Scaled k s' → run.Yields s b t →
    ∃ t', run'.Yields s' (f b) t' ∧ t.Scaled k t'
  fails : ∀ {s s' e t}, s.Scaled k s' → run.Fails s e t →
    ∃ t', run'.Fails s' e t' ∧ t.Scaled k t'

namespace Run

omit [Scalar α] in
/-- The run does nothing but to add notices. -/
def Quiet (run : Run α Unit) : Prop := ∀ s, ∃ log, run.Yields s () { s with log }

namespace Quiet

omit [Scalar α]

theorem nothing : (Pure.pure () : Run α Unit).Quiet :=
  fun s => ⟨s.log, Run.yields_pure.mpr ⟨rfl, rfl⟩⟩

theorem note (notice : Notice) : (Run.note notice : Run α Unit).Quiet :=
  fun _ => ⟨_, Run.yields_note.mpr rfl⟩

theorem ite {run : Run α Unit} {p : Prop} [Decidable p] (h : run.Quiet) :
    (if p then run else Pure.pure () : Run α Unit).Quiet := by
  split
  · exact h
  · exact nothing

theorem closeRepeat (block : Nat) : (Run.closeRepeat block : Run α Unit).Quiet := by
  intro s
  cases hget : s.stepRepeats.get? block with
  | none =>
    refine ⟨s.log, Run.yields_bind.mpr ⟨s, s, Run.yields_get.mpr ⟨rfl, rfl⟩, ?_⟩⟩
    simp only [hget]
    exact Run.yields_pure.mpr ⟨rfl, rfl⟩
  | some b =>
    obtain ⟨log, hlog⟩ := (ite (p := b.steps = 0) (note (.repeatEmpty b.line))) s
    refine ⟨log, Run.yields_bind.mpr ⟨s, s, Run.yields_get.mpr ⟨rfl, rfl⟩, ?_⟩⟩
    simp only [hget]
    exact hlog

end Quiet

end Run

namespace Run.Scaled

variable {k : α}

theorem pure (f : β → γ) (b : β) :
    Scaled k f (Pure.pure b : Run α β) (Pure.pure (f b) : Run α γ) where
  yields hs h := by
    obtain ⟨rfl, rfl⟩ := Run.yields_pure.mp h
    exact ⟨_, Run.yields_pure.mpr ⟨rfl, rfl⟩, hs⟩
  fails _ h := absurd h Run.fails_pure

theorem fail (f : β → γ) (fault : Fault) :
    Scaled k f (Run.fail fault : Run α β) (Run.fail fault : Run α γ) where
  yields _ h := absurd h Run.yields_fail
  fails hs h := by
    obtain ⟨rfl, rfl⟩ := Run.fails_fail.mp h
    exact ⟨_, Run.fails_fail.mpr ⟨rfl, rfl⟩, hs⟩

/-- The second part of a run need only stay in step on what the first part can come to. -/
theorem bind_of_yields {f : β → γ} {g : δ → ε} {run : Run α β} {run' : Run α γ}
    {next : β → Run α δ} {next' : γ → Run α ε} (h : Scaled k f run run')
    (hnext : ∀ s b t, run.Yields s b t → Scaled k g (next b) (next' (f b))) :
    Scaled k g (run >>= next) (run' >>= next') where
  yields hs hrun := by
    obtain ⟨b, u, hfirst, hrest⟩ := Run.yields_bind.mp hrun
    obtain ⟨u', hfirst', hu⟩ := h.yields hs hfirst
    obtain ⟨t', hrest', ht⟩ := (hnext _ b u hfirst).yields hu hrest
    exact ⟨t', Run.yields_bind.mpr ⟨_, u', hfirst', hrest'⟩, ht⟩
  fails hs hrun := by
    rcases Run.fails_bind.mp hrun with hfirst | ⟨b, u, hfirst, hrest⟩
    · obtain ⟨t', hfirst', ht⟩ := h.fails hs hfirst
      exact ⟨t', Run.fails_bind.mpr (.inl hfirst'), ht⟩
    · obtain ⟨u', hfirst', hu⟩ := h.yields hs hfirst
      obtain ⟨t', hrest', ht⟩ := (hnext _ b u hfirst).fails hu hrest
      exact ⟨t', Run.fails_bind.mpr (.inr ⟨_, u', hfirst', hrest'⟩), ht⟩

theorem bind {f : β → γ} {g : δ → ε} {run : Run α β} {run' : Run α γ} {next : β → Run α δ}
    {next' : γ → Run α ε} (h : Scaled k f run run')
    (hnext : ∀ b, Scaled k g (next b) (next' (f b))) :
    Scaled k g (run >>= next) (run' >>= next') :=
  h.bind_of_yields fun _ b _ _ => hnext b

theorem ofExcept {f : β → γ} {result : Except Fault β} {result' : Except Fault γ}
    (h : result' = result.map f) :
    Scaled k f (Run.ofExcept result : Run α β) (Run.ofExcept result' : Run α γ) := by
  subst h
  cases result with
  | ok b => exact .pure f b
  | error fault => exact .fail f fault

theorem ofExcept_self (result : Except Fault β) :
    Scaled k id (Run.ofExcept result : Run α β) (Run.ofExcept result) :=
  .ofExcept (by cases result <;> rfl)

theorem located {f : β → γ} {run : Run α β} {run' : Run α γ} (h : Scaled k f run run')
    (line : Nat) (text : Text) :
    Scaled k f (Run.located line text run) (Run.located line text run') where
  yields hs hrun := by
    obtain ⟨t', hrun', ht⟩ := h.yields hs (Run.yields_located.mp hrun)
    exact ⟨t', Run.yields_located.mpr hrun', ht⟩
  fails hs hrun := by
    obtain ⟨e, hinner, rfl⟩ := Run.fails_located.mp hrun
    obtain ⟨t', hinner', ht⟩ := h.fails hs hinner
    exact ⟨t', Run.fails_located.mpr ⟨e, hinner', rfl⟩, ht⟩

private theorem of_quiet {run run' : Run α Unit} (h : run.Quiet) (h' : run'.Quiet) :
    Scaled k id run run' where
  yields {s s' _ t} hs hrun := by
    obtain ⟨log, hlog⟩ := h s
    obtain ⟨log', hlog'⟩ := h' s'
    obtain ⟨-, rfl⟩ := hlog.unique hrun
    exact ⟨_, hlog', hs.1, hs.2⟩
  fails {s _ _ _} _ hrun := by
    obtain ⟨log, hlog⟩ := h s
    exact absurd hrun hlog.not_fails

theorem note (notice notice' : Notice) :
    Scaled k id (Run.note notice : Run α Unit) (Run.note notice') :=
  .of_quiet (.note notice) (.note notice')

/-- Reading the session; what follows may look at the books and at nothing else. -/
theorem get_bind {g : δ → ε} {next : Session α → Run α δ} {next' : Session α → Run α ε}
    (hnext : ∀ s s', s.Scaled k s' → Scaled k g (next s) (next' s')) :
    Scaled k g (get >>= next) (get >>= next') where
  yields hs h := by
    obtain ⟨s, u, hget, hrest⟩ := Run.yields_bind.mp h
    obtain ⟨rfl, rfl⟩ := Run.yields_get.mp hget
    obtain ⟨t', hrest', ht⟩ := (hnext _ _ hs).yields hs hrest
    exact ⟨t', Run.yields_bind.mpr ⟨_, _, Run.yields_get.mpr ⟨rfl, rfl⟩, hrest'⟩, ht⟩
  fails hs h := by
    obtain ⟨s, u, hget, hrest⟩ := (Run.fails_bind.mp h).resolve_left Run.fails_get
    obtain ⟨rfl, rfl⟩ := Run.yields_get.mp hget
    obtain ⟨t', hrest', ht⟩ := (hnext _ _ hs).fails hs hrest
    exact ⟨t', Run.fails_bind.mpr (.inr ⟨_, _, Run.yields_get.mpr ⟨rfl, rfl⟩, hrest'⟩), ht⟩

theorem set {s s' : Session α} (h : s.Scaled k s') :
    Scaled k id (MonadStateOf.set s : Run α PUnit) (MonadStateOf.set s') where
  yields _ hset := by
    obtain rfl := Run.yields_set.mp hset
    exact ⟨s', Run.yields_set.mpr rfl, h⟩
  fails _ hset := absurd hset Run.fails_set

theorem ite {f : β → γ} {p : Prop} [Decidable p] {run other : Run α β} {run' other' : Run α γ}
    (h : Scaled k f run run') (hother : Scaled k f other other') :
    Scaled k f (if p then run else other) (if p then run' else other') := by
  split
  · exact h
  · exact hother

theorem forSome (index : Option Nat) {act act' : Nat → Run α Unit}
    (h : ∀ n, Scaled k id (act n) (act' n)) :
    Scaled k id (Run.forSome index act) (Run.forSome index act') := by
  cases index with
  | none => exact .pure id ()
  | some n => exact h n

theorem openRegion (line : Nat) : Scaled k id (Run.openRegion line) (Run.openRegion line) := by
  refine .get_bind fun s s' hs => .bind (.set ⟨?_, hs.2⟩) fun _ => ?_
  · rw [hs.1, Regions.scale_add]
  · rw [hs.1, Regions.length_scale]
    exact .pure id _

theorem isRegionOpen (region : Option Nat) :
    Scaled k id (Run.isRegionOpen region) (Run.isRegionOpen region) := by
  refine .get_bind fun s s' hs => ?_
  rw [hs.1, Regions.isOpen_scale]
  exact .ofExcept_self _

theorem addVertex (region : Nat) (c : Coord α) :
    Scaled k id (Run.addVertex region c) (Run.addVertex region (c.scale k)) where
  yields hs h := by
    obtain rfl := Run.yields_addVertex.mp h
    refine ⟨_, Run.yields_addVertex.mpr rfl, ?_, hs.2⟩
    simp only [hs.1, Regions.scale_addVertex]
  fails _ h := absurd h Run.fails_modify

theorem closeRegion (region : Option Nat) (line : Nat) (tolerance : α) :
    Scaled k id (Run.closeRegion region line tolerance)
      (Run.closeRegion region line tolerance) := by
  refine .get_bind fun s s' hs => ?_
  have hclose := Regions.close_scale (k := k) s.regions region line
  rw [← hs.1] at hclose
  refine .bind (.ofExcept hclose) fun result => ?_
  obtain ⟨regions, closed⟩ := result
  refine .bind (.set ⟨rfl, hs.2⟩) fun _ => ?_
  -- whether the contour ends where it started makes a difference for the notices only
  exact .of_quiet (.ite (.note _)) (.ite (.note _))

theorem openRepeat (b : StepRepeat α) :
    Scaled k id (Run.openRepeat b) (Run.openRepeat (b.scale k)) := by
  refine .get_bind fun s s' hs => .bind (.set ⟨hs.1, ?_⟩) fun _ => ?_
  · rw [hs.2, StepRepeats.scale_add]
  · rw [hs.2, StepRepeats.length_scale]
    exact .pure id _

theorem adjustRepeat (block : Nat) (delta : Int) :
    Scaled k id (Run.adjustRepeat block delta) (Run.adjustRepeat block delta) := by
  refine .get_bind fun s s' hs => ?_
  have hadjust : s'.stepRepeats.adjust block delta =
      (s.stepRepeats.adjust block delta).map (·.scale k) := by
    rw [hs.2, StepRepeats.adjust_scale]
  exact .bind (.ofExcept hadjust) fun repeats => .set ⟨hs.1, rfl⟩

theorem closeRepeat (block : Nat) :
    Scaled k id (Run.closeRepeat block) (Run.closeRepeat block : Run α Unit) :=
  .of_quiet (.closeRepeat block) (.closeRepeat block)

end Run.Scaled

end Gerber
