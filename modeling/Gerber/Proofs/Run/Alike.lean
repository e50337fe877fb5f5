import Gerber.Proofs.Scaling.Run
import Gerber.Proofs.Stream.Effect

/-!
# Alike runs

Two runs are alike if, from sessions with the same books, they come to the same value or the same
error and leave the same books.  What they tell on the way may differ.
-/

namespace Gerber.Run

variable {α β γ : Type}

/-- From sessions with the same books, both runs end in the same way and leave the same books. -/
def Alike (run run' : Run α β) : Prop :=
  ∀ s s' : Session α, s.SameBooks s' →
    (run'.outcome s').1 = (run.outcome s).1 ∧ (run.outcome s).2.SameBooks (run'.outcome s').2

/-- The run yields a value from every session and leaves the books alone. -/
def Leaves (run : Run α β) (b : β) : Prop := ∀ s, ∃ t, run.Yields s b t ∧ s.SameBooks t

theorem Quiet.leaves {run : Run α Unit} (h : run.Quiet) : run.Leaves () := by
  intro s
  obtain ⟨log, hlog⟩ := h s
  exact ⟨_, hlog, rfl, rfl⟩

theorem Leaves.located {run : Run α β} {b : β} (h : run.Leaves b) (line : Nat) (text : Text) :
    (Run.located line text run).Leaves b := by
  intro s
  obtain ⟨t, hrun, ht⟩ := h s
  exact ⟨t, yields_located.mpr hrun, ht⟩

namespace Alike

variable {run run' : Run α β}

theorem yields {s s' t : Session α} {b : β} (h : run.Alike run') (hs : s.SameBooks s')
    (hrun : run.Yields s b t) : ∃ t', run'.Yields s' b t' ∧ t.SameBooks t' := by
  obtain ⟨hresult, hbooks⟩ := h s s' hs
  rw [show run.outcome s = _ from hrun] at hresult hbooks
  exact ⟨(run'.outcome s').2, Prod.ext hresult rfl, hbooks⟩

theorem fails {s s' t : Session α} {e : Error} (h : run.Alike run') (hs : s.SameBooks s')
    (hrun : run.Fails s e t) : ∃ t', run'.Fails s' e t' ∧ t.SameBooks t' := by
  obtain ⟨hresult, hbooks⟩ := h s s' hs
  rw [show run.outcome s = _ from hrun] at hresult hbooks
  exact ⟨(run'.outcome s').2, Prod.ext hresult rfl, hbooks⟩

private theorem of_cases
    (hyields : ∀ s s' b t, s.SameBooks s' → run.Yields s b t →
      ∃ t', run'.Yields s' b t' ∧ t.SameBooks t')
    (hfails : ∀ s s' e t, s.SameBooks s' → run.Fails s e t →
      ∃ t', run'.Fails s' e t' ∧ t.SameBooks t') : run.Alike run' := by
  intro s s' hs
  rcases run.yields_or_fails s with ⟨b, t, hrun⟩ | ⟨e, t, hrun⟩
  · obtain ⟨t', hrun', ht⟩ := hyields s s' b t hs hrun
    rw [show run.outcome s = _ from hrun, show run'.outcome s' = _ from hrun']
    exact ⟨rfl, ht⟩
  · obtain ⟨t', hrun', ht⟩ := hfails s s' e t hs hrun
    rw [show run.outcome s = _ from hrun, show run'.outcome s' = _ from hrun']
    exact ⟨rfl, ht⟩

theorem pure (b : β) : (Pure.pure b : Run α β).Alike (Pure.pure b) :=
  fun _ _ hs => ⟨rfl, hs⟩

/-- The second parts need only be alike on what the first part can come to. -/
theorem bind_of_yields {next next' : β → Run α γ} (h : run.Alike run')
    (hnext : ∀ s b t, run.Yields s b t → (next b).Alike (next' b)) :
    (run >>= next).Alike (run' >>= next') := by
  apply of_cases
  · intro s s' c t hs hrun
    obtain ⟨b, u, hfirst, hrest⟩ := yields_bind.mp hrun
    obtain ⟨u', hfirst', hu⟩ := h.yields hs hfirst
    obtain ⟨t', hrest', ht⟩ := (hnext s b u hfirst).yields hu hrest
    exact ⟨t', yields_bind.mpr ⟨b, u', hfirst', hrest'⟩, ht⟩
  · intro s s' e t hs hrun
    rcases fails_bind.mp hrun with hfirst | ⟨b, u, hfirst, hrest⟩
    · obtain ⟨t', hfirst', ht⟩ := h.fails hs hfirst
      exact ⟨t', fails_bind.mpr (.inl hfirst'), ht⟩
    · obtain ⟨u', hfirst', hu⟩ := h.yields hs hfirst
      obtain ⟨t', hrest', ht⟩ := (hnext s b u hfirst).fails hu hrest
      exact ⟨t', fails_bind.mpr (.inr ⟨b, u', hfirst', hrest'⟩), ht⟩

theorem bind {next next' : β → Run α γ} (h : run.Alike run')
    (hnext : ∀ b, (next b).Alike (next' b)) : (run >>= next).Alike (run' >>= next') :=
  h.bind_of_yields fun _ b _ _ => hnext b

/-- A first part that leaves the books alone can be left out. -/
theorem skip {b : β} {next : β → Run α γ} {rest : Run α γ} (h : run.Leaves b)
    (hnext : (next b).Alike rest) : (run >>= next).Alike rest := by
  intro s s' hs
  obtain ⟨t, hrun, ht⟩ := h s
  rw [outcome_bind_of_yields hrun]
  apply hnext
  exact ⟨hs.1.trans ht.1.symm, hs.2.trans ht.2.symm⟩

private theorem of_leaves {b : β} (h : run.Leaves b) (h' : run'.Leaves b) : run.Alike run' := by
  intro s s' hs
  obtain ⟨t, hrun, ht⟩ := h s
  obtain ⟨t', hrun', ht'⟩ := h' s'
  rw [show run.outcome s = _ from hrun, show run'.outcome s' = _ from hrun']
  exact ⟨rfl, (hs.1.symm ▸ ht'.1).trans ht.1.symm, (hs.2.symm ▸ ht'.2).trans ht.2.symm⟩

theorem ofExcept (result : Except Fault β) :
    (Run.ofExcept result : Run α β).Alike (Run.ofExcept result) := by
  cases result <;> exact fun _ _ hs => ⟨rfl, hs⟩

theorem located (h : run.Alike run') (line : Nat) (text : Text) :
    (Run.located line text run).Alike (Run.located line text run') := by
  apply of_cases
  · intro s s' b t hs hrun
    obtain ⟨t', hrun', ht⟩ := h.yields hs (yields_located.mp hrun)
    exact ⟨t', yields_located.mpr hrun', ht⟩
  · intro s s' e t hs hrun
    obtain ⟨e, hinner, rfl⟩ := fails_located.mp hrun
    obtain ⟨t', hinner', ht⟩ := h.fails hs hinner
    exact ⟨t', fails_located.mpr ⟨e, hinner', rfl⟩, ht⟩

theorem ite {p : Prop} [Decidable p] {other other' : Run α β} (h : run.Alike run')
    (hother : other.Alike other') :
    (if p then run else other).Alike (if p then run' else other') := by
  split
  · exact h
  · exact hother

theorem forSome (index : Option Nat) {act : Nat → Run α Unit} (h : ∀ n, (act n).Alike (act n)) :
    (Run.forSome index act).Alike (Run.forSome index act) := by
  cases index with
  | none => exact pure ()
  | some n => exact h n

theorem set {s s' : Session α} (h : s.SameBooks s') :
    (MonadStateOf.set s : Run α PUnit).Alike (MonadStateOf.set s') :=
  fun _ _ _ => ⟨rfl, h⟩

/-- What follows a look at the session may depend on its books only. -/
theorem get_bind {next : Session α → Run α γ}
    (hnext : ∀ s s' : Session α, s.SameBooks s' → (next s).Alike (next s')) :
    (get >>= next).Alike (get >>= next) :=
  fun s s' hs => hnext s s' hs s s' hs

theorem note (notice : Notice) : (Run.note notice : Run α Unit).Alike (Run.note notice) :=
  .of_leaves (Quiet.note notice).leaves (Quiet.note notice).leaves

theorem closeRepeat (block : Nat) :
    (Run.closeRepeat block : Run α Unit).Alike (Run.closeRepeat block) :=
  .of_leaves (Quiet.closeRepeat block).leaves (Quiet.closeRepeat block).leaves

theorem openRegion (line : Nat) :
    (Run.openRegion line : Run α Nat).Alike (Run.openRegion line) := by
  refine get_bind fun s s' hs => ?_
  rw [hs.1]
  exact bind (set ⟨rfl, hs.2⟩) fun _ => pure _

theorem isRegionOpen (region : Option Nat) :
    (Run.isRegionOpen region : Run α Bool).Alike (Run.isRegionOpen region) := by
  refine get_bind fun s s' hs => ?_
  rw [hs.1]
  exact ofExcept _

theorem addVertex (region : Nat) (c : Coord α) :
    (Run.addVertex region c).Alike (Run.addVertex region c) := by
  intro s s' hs
  refine ⟨rfl, ?_, hs.2⟩
  change s'.regions.addVertex region c = s.regions.addVertex region c
  rw [hs.1]

theorem openRepeat (b : StepRepeat α) : (Run.openRepeat b).Alike (Run.openRepeat b) := by
  refine get_bind fun s s' hs => ?_
  rw [hs.2]
  exact bind (set ⟨hs.1, rfl⟩) fun _ => pure _

theorem adjustRepeat (block : Nat) (delta : Int) :
    (Run.adjustRepeat block delta : Run α Unit).Alike (Run.adjustRepeat block delta) := by
  refine get_bind fun s s' hs => ?_
  rw [hs.2]
  exact bind (ofExcept _) fun repeats => set ⟨hs.1, rfl⟩

theorem closeRegion [Scalar α] (region : Option Nat) (line : Nat) (tolerance : α) :
    (Run.closeRegion region line tolerance).Alike (Run.closeRegion region line tolerance) := by
  refine get_bind fun s s' hs => ?_
  rw [hs.1]
  refine bind (ofExcept _) fun (regions, closed) => bind (set ⟨rfl, hs.2⟩) fun _ => ?_
  exact of_leaves (Quiet.ite (.note _)).leaves (Quiet.ite (.note _)).leaves

end Alike

end Gerber.Run
