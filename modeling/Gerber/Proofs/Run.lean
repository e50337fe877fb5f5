import Gerber.Proofs.Except
import Gerber.Session

/-!
# The outcomes of runs

A run that starts in a session either yields a value or fails with an error, and leaves a session
behind in both cases.  The operations on sessions are described here by their outcomes, so that a
longer run is taken apart at its binds and never unfolded.
-/

namespace Gerber.Run

variable {α β γ : Type}

/-- What the run that starts in `s` ends with. -/
def outcome (run : Run α β) (s : Session α) : Except Error β × Session α := run.run.run s

/-- The run that starts in `s` yields `b` and leaves `t`. -/
def Yields (run : Run α β) (s : Session α) (b : β) (t : Session α) : Prop :=
  run.outcome s = (.ok b, t)

/-- The run that starts in `s` fails with `e` and leaves `t`. -/
def Fails (run : Run α β) (s : Session α) (e : Error) (t : Session α) : Prop :=
  run.outcome s = (.error e, t)

variable {s t u : Session α} {b : β} {e : Error}

theorem yields_or_fails (run : Run α β) (s : Session α) :
    (∃ b t, run.Yields s b t) ∨ ∃ e t, run.Fails s e t := by
  rcases h : run.outcome s with ⟨r, t⟩
  cases r with
  | ok b => exact .inl ⟨b, t, h⟩
  | error e => exact .inr ⟨e, t, h⟩

theorem Yields.unique {run : Run α β} {c : β} (h : run.Yields s b t) (h' : run.Yields s c u) :
    c = b ∧ u = t := by
  have hp := h'.symm.trans h
  rw [Prod.mk.injEq, Except.ok.injEq] at hp
  exact hp

theorem Yields.not_fails {run : Run α β} (h : run.Yields s b t) : ¬ run.Fails s e u := by
  intro h'
  cases h.symm.trans h'

theorem Fails.unique {run : Run α β} {e' : Error} (h : run.Fails s e t) (h' : run.Fails s e' u) :
    e' = e ∧ u = t := by
  have hp := h'.symm.trans h
  rw [Prod.mk.injEq, Except.error.injEq] at hp
  exact hp

/-- A run that is computed far enough to show a value yields one. -/
theorem exists_yields_of_outcome {run : Run α β} {f : β → γ} {c : γ}
    (h : (run.outcome s).1.toOption.map f = some c) : ∃ b t, run.Yields s b t ∧ f b = c := by
  rcases run.yields_or_fails s with ⟨b, t, hr⟩ | ⟨e, t, hr⟩
  · rw [show run.outcome s = _ from hr] at h
    exact ⟨b, t, hr, Option.some.inj h⟩
  · rw [show run.outcome s = _ from hr] at h
    cases h

theorem outcome_bind_of_yields {run : Run α β} {f : β → Run α γ} (h : run.Yields s b u) :
    (run >>= f).outcome s = (f b).outcome u := by
  change run.run.run s = (.ok b, u) at h
  rw [outcome, ExceptT.run_bind, StateT.run_bind, h]
  rfl

private theorem run_bind_of_fails {run : Run α β} {f : β → Run α γ} (h : run.Fails s e u) :
    (run >>= f).outcome s = (.error e, u) := by
  change run.run.run s = (.error e, u) at h
  rw [outcome, ExceptT.run_bind, StateT.run_bind, h]
  rfl

@[simp] theorem yields_pure {a : β} : (pure a : Run α β).Yields s b t ↔ b = a ∧ t = s := by
  change ((Except.ok a : Except Error β), s) = (.ok b, t) ↔ _
  rw [Prod.mk.injEq, Except.ok.injEq, eq_comm, @eq_comm _ s]

@[simp] theorem fails_pure {a : β} : ¬ (pure a : Run α β).Fails s e t := by
  intro h
  cases (show ((Except.ok a : Except Error β), s) = (.error e, t) from h)

@[simp] theorem yields_bind {run : Run α β} {f : β → Run α γ} {c : γ} :
    (run >>= f).Yields s c t ↔ ∃ b u, run.Yields s b u ∧ (f b).Yields u c t := by
  constructor
  · intro h
    rcases run.yields_or_fails s with ⟨b, u, hr⟩ | ⟨e, u, hr⟩
    · exact ⟨b, u, hr, (outcome_bind_of_yields hr).symm.trans h⟩
    · cases (run_bind_of_fails hr).symm.trans h
  · rintro ⟨b, u, hr, hf⟩
    exact (outcome_bind_of_yields hr).trans hf

@[simp] theorem fails_bind {run : Run α β} {f : β → Run α γ} :
    (run >>= f).Fails s e t ↔
      run.Fails s e t ∨ ∃ b u, run.Yields s b u ∧ (f b).Fails u e t := by
  constructor
  · intro h
    rcases run.yields_or_fails s with ⟨b, u, hr⟩ | ⟨e', u, hr⟩
    · exact .inr ⟨b, u, hr, (outcome_bind_of_yields hr).symm.trans h⟩
    · have hb : (run >>= f).Fails s e' u := run_bind_of_fails hr
      obtain ⟨rfl, rfl⟩ := hb.unique h
      exact .inl hr
  · rintro (hr | ⟨b, u, hr, hf⟩)
    · exact run_bind_of_fails hr
    · exact (outcome_bind_of_yields hr).trans hf

@[simp] theorem yields_map {run : Run α β} {f : β → γ} {c : γ} :
    (f <$> run).Yields s c t ↔ ∃ b, run.Yields s b t ∧ c = f b := by
  rw [← bind_pure_comp, yields_bind]
  constructor
  · rintro ⟨b, u, hr, hc⟩
    obtain ⟨rfl, rfl⟩ := yields_pure.mp hc
    exact ⟨b, hr, rfl⟩
  · rintro ⟨b, hr, rfl⟩
    exact ⟨b, t, hr, yields_pure.mpr ⟨rfl, rfl⟩⟩

@[simp] theorem fails_map {run : Run α β} {f : β → γ} :
    (f <$> run).Fails s e t ↔ run.Fails s e t := by
  rw [← bind_pure_comp, fails_bind]
  simp only [fails_pure, and_false, exists_false, or_false]

@[simp] theorem yields_fail {fault : Fault} : ¬ (fail fault : Run α β).Yields s b t := by
  intro h
  cases (show ((Except.error { fault } : Except Error β), s) = (.ok b, t) from h)

@[simp] theorem fails_fail {fault : Fault} :
    (fail fault : Run α β).Fails s e t ↔ e = { fault } ∧ t = s := by
  change ((Except.error { fault } : Except Error β), s) = (.error e, t) ↔ _
  rw [Prod.mk.injEq, Except.error.injEq, eq_comm, @eq_comm _ s]

@[simp] theorem yields_ofExcept {result : Except Fault β} :
    (ofExcept result : Run α β).Yields s b t ↔ result = .ok b ∧ t = s := by
  cases result with
  | ok a => simp only [ofExcept, yields_pure, Except.ok.injEq, eq_comm]
  | error fault => simp only [ofExcept, yields_fail, reduceCtorEq, false_and]

@[simp] theorem fails_ofExcept {result : Except Fault β} :
    (ofExcept result : Run α β).Fails s e t ↔
      ∃ fault, result = .error fault ∧ e = { fault } ∧ t = s := by
  cases result with
  | ok a => simp [ofExcept]
  | error fault => simp [ofExcept]

@[simp] theorem yields_get {a : Session α} :
    (get : Run α (Session α)).Yields s a t ↔ a = s ∧ t = s :=
  yields_pure

@[simp] theorem fails_get : ¬ (get : Run α (Session α)).Fails s e t :=
  fails_pure

@[simp] theorem yields_set {s' : Session α} {a : PUnit} :
    (set s' : Run α PUnit).Yields s a t ↔ t = s' := by
  change ((Except.ok PUnit.unit : Except Error PUnit), s') = (.ok a, t) ↔ _
  simp [eq_comm]

@[simp] theorem fails_set {s' : Session α} : ¬ (set s' : Run α PUnit).Fails s e t := by
  intro h
  cases (show ((Except.ok PUnit.unit : Except Error PUnit), s') = (.error e, t) from h)

@[simp] theorem yields_modify {f : Session α → Session α} {a : PUnit} :
    (modify f : Run α PUnit).Yields s a t ↔ t = f s := by
  change ((Except.ok PUnit.unit : Except Error PUnit), f s) = (.ok a, t) ↔ _
  simp [eq_comm]

@[simp] theorem fails_modify {f : Session α → Session α} :
    ¬ (modify f : Run α PUnit).Fails s e t := by
  intro h
  cases (show ((Except.ok PUnit.unit : Except Error PUnit), f s) = (.error e, t) from h)

private theorem outcome_located (line : Nat) (text : Text) (run : Run α β) (s : Session α) :
    (located line text run).outcome s =
      ((run.outcome s).1.mapError fun e => e.locate line text, (run.outcome s).2) :=
  rfl

@[simp] theorem yields_located {line : Nat} {text : Text} {run : Run α β} :
    (located line text run).Yields s b t ↔ run.Yields s b t := by
  simp only [Yields, outcome_located]
  rcases run.outcome s with ⟨_ | _, u⟩ <;> simp [Except.mapError_ok, Except.mapError_error]

@[simp] theorem fails_located {line : Nat} {text : Text} {run : Run α β} :
    (located line text run).Fails s e t ↔
      ∃ e', run.Fails s e' t ∧ e = e'.locate line text := by
  simp only [Fails, outcome_located]
  rcases run.outcome s with ⟨e' | b, u⟩
  · simp only [Except.mapError_error, Prod.mk.injEq, Except.error.injEq]
    constructor
    · rintro ⟨rfl, rfl⟩
      exact ⟨e', ⟨rfl, rfl⟩, rfl⟩
    · rintro ⟨_, ⟨rfl, rfl⟩, rfl⟩
      exact ⟨rfl, rfl⟩
  · simp [Except.mapError_ok]

@[simp] theorem yields_note {notice : Notice} {a : Unit} :
    (note notice : Run α Unit).Yields s a t ↔ t = { s with log := notice :: s.log } :=
  yields_modify

@[simp] theorem fails_note {notice : Notice} : ¬ (note notice : Run α Unit).Fails s e t :=
  fails_modify

/-- What is done with an index, if there is one. -/
def forSome (id : Option Nat) (act : Nat → Run α Unit) : Run α Unit :=
  match id with
  | some k => act k
  | none => pure ()

@[simp] theorem forSome_none {act : Nat → Run α Unit} : forSome none act = pure () := rfl

@[simp] theorem forSome_some {k : Nat} {act : Nat → Run α Unit} :
    forSome (some k) act = act k := rfl

theorem yields_openRegion {line id : Nat} :
    (openRegion line : Run α Nat).Yields s id t ↔
      id = s.regions.regions.length ∧ t = { s with regions := s.regions.add line } := by
  simp [openRegion, and_comm]

theorem yields_isRegionOpen {id : Option Nat} {answer : Bool} :
    (isRegionOpen id : Run α Bool).Yields s answer t ↔
      s.regions.isOpen id = .ok answer ∧ t = s := by
  simp [isRegionOpen, and_assoc, and_comm]

theorem yields_addVertex {id : Nat} {c : Coord α} {a : Unit} :
    (addVertex id c).Yields s a t ↔ t = { s with regions := s.regions.addVertex id c } :=
  yields_modify

theorem yields_openRepeat {block : StepRepeat α} {id : Nat} :
    (openRepeat block).Yields s id t ↔
      id = s.stepRepeats.blocks.length ∧ t = { s with stepRepeats := s.stepRepeats.add block } := by
  simp [openRepeat, and_comm]

theorem yields_adjustRepeat {id : Nat} {delta : Int} {a : Unit} :
    (adjustRepeat id delta : Run α Unit).Yields s a t ↔
      ∃ repeats, s.stepRepeats.adjust id delta = .ok repeats ∧
        t = { s with stepRepeats := repeats } := by
  simp [adjustRepeat, and_assoc]

theorem fails_adjustRepeat {id : Nat} {delta : Int} :
    (adjustRepeat id delta : Run α Unit).Fails s e t ↔
      ∃ fault, s.stepRepeats.adjust id delta = .error fault ∧ e = { fault } ∧ t = s := by
  simp [adjustRepeat, and_assoc]

theorem yields_forSome_addVertex {id : Option Nat} {c : Coord α} {a : Unit} :
    (forSome id (addVertex · c)).Yields s a t ↔
      t = { s with regions := id.elim s.regions (s.regions.addVertex · c) } := by
  cases id with
  | none => simp
  | some k => exact yields_addVertex

theorem yields_forSome_adjustRepeat {id : Option Nat} {delta : Int} {a : Unit} :
    (forSome id (adjustRepeat · delta) : Run α Unit).Yields s a t ↔
      ∃ repeats, id.elim (.ok s.stepRepeats) (s.stepRepeats.adjust · delta) = .ok repeats ∧
        t = { s with stepRepeats := repeats } := by
  cases id with
  | none => simp
  | some k => exact yields_adjustRepeat

end Gerber.Run
