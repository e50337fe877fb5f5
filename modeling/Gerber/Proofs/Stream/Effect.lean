import Gerber.Proofs.Run
import Gerber.Stream

/-!
# The effects of commands

All that a command can do to the pending step and to the books of the session (its regions and
step-and-repeat blocks), one rule for each kind of command.  What holds of streams is derived from
these rules: a property that every effect keeps is kept by a whole stream.
-/

namespace Gerber

variable {α : Type}

/-- Commands that change neither steps nor books. -/
def Command.isIdle : Command → Bool
  | .imageTransform _ _ => true
  | .ignored _ => true
  | .comment => true
  | .header => true
  | .unknown => true
  | _ => false

/-- Two sessions that differ at most in their notices. -/
def Session.SameBooks (s t : Session α) : Prop :=
  t.regions = s.regions ∧ t.stepRepeats = s.stepRepeats

namespace Session.SameBooks

variable {s t u : Session α}

theorem refl (s : Session α) : s.SameBooks s := ⟨rfl, rfl⟩

theorem trans (h : s.SameBooks t) (h' : t.SameBooks u) : s.SameBooks u :=
  ⟨h'.1.trans h.1, h'.2.trans h.2⟩

theorem of_note {notice : Notice} {a : Unit} (h : (Run.note notice : Run α Unit).Yields s a t) :
    s.SameBooks t := by
  rw [Run.yields_note] at h
  subst h
  exact ⟨rfl, rfl⟩

theorem of_closeRepeat {id : Nat} {a : Unit} (h : (Run.closeRepeat id : Run α Unit).Yields s a t) :
    s.SameBooks t := by
  unfold Run.closeRepeat at h
  simp only [Run.yields_bind, Run.yields_get] at h
  obtain ⟨_, _, ⟨rfl, rfl⟩, h⟩ := h
  split at h
  · split at h
    · exact of_note h
    · rw [Run.yields_pure] at h
      exact h.2 ▸ refl _
  · rw [Run.yields_pure] at h
    exact h.2 ▸ refl _

end Session.SameBooks

private theorem Apertures.lookup_eq_ok_iff {apertures : Apertures α} {code : Nat} {a : Aperture α} :
    apertures.lookup code = .ok a ↔ apertures.get? code = some a := by
  unfold lookup
  cases apertures.get? code <;> simp

namespace Stream

variable [Scalar α]

/-- The books after an operation at a coordinate: an open region gets a vertex, and an open
step-and-repeat block counts a step. -/
structure Entered (pending : Step α) (coord : Coord α) (s t : Session α) : Prop where
  regions : t.regions =
    pending.region.elim s.regions fun id => s.regions.addVertex id coord
  stepRepeats :
    pending.stepRepeat.elim (.ok s.stepRepeats) (fun id => s.stepRepeats.adjust id 1) =
      .ok t.stepRepeats

/-- What a command does to the pending step and to the books, and the outcome that it reports.
`last` is the coordinate of the last step. -/
inductive Effect (setting : Setting α) (pending : Step α) (last : Coord α) (token : Token)
    (s : Session α) : Outcome → Step α → Session α → Prop
  | interpolation {mode : Interpolation} :
      Command.ofText token.text = .interpolation mode →
        Effect setting pending last token s .next { pending with interpolation := mode } s
  | polarity {polarity : Polarity} :
      Command.ofText token.text = .polarity polarity →
        Effect setting pending last token s .next { pending with polarity } s
  | quadrant {mode : Quadrant} :
      Command.ofText token.text = .quadrant mode →
        Effect setting pending last token s .next { pending with quadrant := mode } s
  | select {code : Nat} {aperture : Aperture α} :
      Command.ofText token.text = .select code →
      setting.apertures.get? code = some aperture →
        Effect setting pending last token s .next { pending with aperture := some code } s
  | regionBegin {t : Session α} :
      Command.ofText token.text = .regionBegin →
      t.regions = s.regions.add token.line → t.stepRepeats = s.stepRepeats →
        Effect setting pending last token s .next
          { pending with region := some s.regions.regions.length } t
  | regionEnd {t : Session α} {closed : Region α} :
      Command.ofText token.text = .regionEnd →
      s.regions.close pending.region token.line = .ok (t.regions, closed) →
      t.stepRepeats = s.stepRepeats →
        Effect setting pending last token s .next { pending with region := none } t
  | operation {body : Text} {action : Action} {coord : Coord α} {t : Session α} :
      Command.ofText token.text = .operation body action →
      Coord.ofBody setting.format (some last) body = .ok coord →
      Entered pending coord s t →
        Effect setting pending last token s .complete
          { pending with prev := last, coord, action, line := token.line } t
  | repeatOpen {block : StepRepeat α} {t : Session α} :
      Command.ofText token.text = .stepRepeatOpen →
      StepRepeat.ofCommand token.text setting.format token.line = .ok block →
      t.regions = s.regions → t.stepRepeats = s.stepRepeats.add block →
        Effect setting pending last token s .next
          { pending with stepRepeat := some s.stepRepeats.blocks.length } t
  | repeatClose {t : Session α} :
      Command.ofText token.text = .stepRepeatClose → s.SameBooks t →
        Effect setting pending last token s .next { pending with stepRepeat := none } t
  | stop {t : Session α} :
      Command.ofText token.text = .stop → s.SameBooks t →
        Effect setting pending last token s .stop
          { pending with
            stepRepeat := none, prev := last, coord := last, action := .stop, line := token.line } t
  | idle {t : Session α} :
      (Command.ofText token.text).isIdle = true → s.SameBooks t →
        Effect setting pending last token s .skip pending t

variable {setting : Setting α} {pending step : Step α} {last : Coord α} {s t : Session α}
  {outcome : Outcome}

theorem operate_eq (line : Nat) (body : Text) (action : Action) :
    operate setting pending last line body action = (do
      let coord ← Run.ofExcept (Coord.ofBody setting.format (some last) body)
      Run.forSome pending.region (Run.addVertex · coord)
      Run.forSome pending.stepRepeat (Run.adjustRepeat · 1)
      pure (.complete, { pending with prev := last, coord, action, line })) := by
  unfold operate
  cases pending.region <;> cases pending.stepRepeat <;> simp

private theorem effect_of_operate {token : Token} {body : Text} {action : Action}
    (hc : Command.ofText token.text = .operation body action)
    (h : (operate setting pending last token.line body action).Yields s (outcome, step) t) :
    Effect setting pending last token s outcome step t := by
  simp only [operate_eq, Run.yields_bind, Run.yields_ofExcept, Run.yields_forSome_addVertex,
    Run.yields_forSome_adjustRepeat, Run.yields_pure, Prod.mk.injEq] at h
  obtain ⟨coord, _, ⟨hcoord, rfl⟩, _, _, rfl, _, _, ⟨repeats, hadjust, rfl⟩, ⟨rfl, rfl⟩, rfl⟩ := h
  exact .operation hc hcoord ⟨rfl, hadjust⟩

private theorem close_of_closeRegion {id : Option Nat} {line : Nat} {tolerance : α} {a : Unit}
    (h : (Run.closeRegion id line tolerance).Yields s a t) :
    ∃ closed, s.regions.close id line = .ok (t.regions, closed) ∧
      t.stepRepeats = s.stepRepeats := by
  unfold Run.closeRegion at h
  simp only [Run.yields_bind, Run.yields_get, Run.yields_ofExcept] at h
  obtain ⟨_, _, ⟨rfl, rfl⟩, ⟨regions, closed⟩, _, ⟨hclose, rfl⟩, h⟩ := h
  obtain ⟨_, u, hset, h⟩ := h
  have hu := Run.yields_set.mp hset
  have hbooks : u.SameBooks t := by
    split at h
    · exact .of_note h
    · rw [Run.yields_pure] at h
      exact h.2 ▸ .refl _
  refine ⟨closed, ?_, ?_⟩
  · rw [hclose, hbooks.1, hu]
  · rw [hbooks.2, hu]

private theorem effect_of_openRegion {token : Token} {u : Session α}
    (hc : Command.ofText token.text = .regionBegin) (hu : s.SameBooks u)
    (h : (do
      let id ← Run.openRegion token.line
      pure (.next, { pending with region := some id }) :
        Run α (Outcome × Step α)).Yields u (outcome, step) t) :
    Effect setting pending last token s outcome step t := by
  simp only [Run.yields_bind, Run.yields_openRegion, Run.yields_pure, Prod.mk.injEq] at h
  obtain ⟨_, _, ⟨rfl, rfl⟩, ⟨rfl, rfl⟩, rfl⟩ := h
  rw [hu.1]
  exact .regionBegin hc rfl hu.2

private theorem effect_of_openRepeat {token : Token} {u : Session α}
    (hc : Command.ofText token.text = .stepRepeatOpen) (hu : s.SameBooks u)
    (h : (do
      let block ← Run.ofExcept
        ((StepRepeat.ofCommand token.text setting.format token.line).mapError .stepRepeat)
      let id ← Run.openRepeat block
      pure (.next, { pending with stepRepeat := some id }) :
        Run α (Outcome × Step α)).Yields u (outcome, step) t) :
    Effect setting pending last token s outcome step t := by
  simp only [Run.yields_bind, Run.yields_ofExcept, Run.yields_openRepeat, Run.yields_pure,
    Except.mapError_eq_ok, Prod.mk.injEq] at h
  obtain ⟨block, _, ⟨hblock, rfl⟩, _, _, ⟨rfl, rfl⟩, ⟨rfl, rfl⟩, rfl⟩ := h
  rw [hu.2]
  exact .repeatOpen hc hblock hu.1 rfl

/-- Every command that is carried out has one of the effects. -/
theorem effect_of_apply {token : Token}
    (h : (apply setting pending last token).Yields s (outcome, step) t) :
    Effect setting pending last token s outcome step t := by
  unfold apply at h
  cases hc : Command.ofText token.text with
  | interpolation mode =>
    simp only [hc, Run.yields_pure, Prod.mk.injEq] at h
    obtain ⟨⟨rfl, rfl⟩, rfl⟩ := h
    exact .interpolation hc
  | polarity polarity =>
    simp only [hc, Run.yields_pure, Prod.mk.injEq] at h
    obtain ⟨⟨rfl, rfl⟩, rfl⟩ := h
    exact .polarity hc
  | quadrant mode =>
    simp only [hc, Run.yields_pure, Prod.mk.injEq] at h
    obtain ⟨⟨rfl, rfl⟩, rfl⟩ := h
    exact .quadrant hc
  | regionBegin =>
    simp only [hc] at h
    split at h
    · rw [Run.yields_bind] at h
      obtain ⟨answer, u, ho, h⟩ := h
      obtain ⟨-, rfl⟩ := Run.yields_isRegionOpen.mp ho
      split at h
      · rw [Run.yields_bind] at h
        obtain ⟨_, v, hn, h⟩ := h
        exact effect_of_openRegion hc (.of_note hn) h
      · exact effect_of_openRegion hc (.refl _) h
    · exact effect_of_openRegion hc (.refl _) h
  | regionEnd =>
    simp only [hc, Run.yields_bind, Run.yields_pure, Prod.mk.injEq] at h
    obtain ⟨_, u, hclose, ⟨rfl, rfl⟩, rfl⟩ := h
    obtain ⟨closed, hclose, hbooks⟩ := close_of_closeRegion hclose
    exact .regionEnd hc hclose hbooks
  | operation body action =>
    simp only [hc] at h
    exact effect_of_operate hc h
  | select code =>
    simp only [hc, Run.yields_bind, Run.yields_ofExcept, Run.yields_pure, Prod.mk.injEq] at h
    obtain ⟨aperture, _, ⟨hlook, rfl⟩, ⟨rfl, rfl⟩, rfl⟩ := h
    exact .select hc (Apertures.lookup_eq_ok_iff.mp hlook)
  | stepRepeatOpen =>
    simp only [hc] at h
    split at h
    · rw [Run.yields_bind] at h
      obtain ⟨_, u, hclose, h⟩ := h
      exact effect_of_openRepeat hc (.of_closeRepeat hclose) h
    · exact effect_of_openRepeat hc (.refl _) h
  | stepRepeatClose =>
    simp only [hc] at h
    split at h
    · simp only [Run.yields_bind, Run.yields_pure, Prod.mk.injEq] at h
      obtain ⟨_, u, hclose, ⟨rfl, rfl⟩, rfl⟩ := h
      exact .repeatClose hc (.of_closeRepeat hclose)
    · simp only [Run.yields_bind, Run.yields_pure, Prod.mk.injEq] at h
      obtain ⟨_, u, hn, ⟨rfl, rfl⟩, rfl⟩ := h
      exact .repeatClose hc (.of_note hn)
  | stop =>
    simp only [hc] at h
    split at h
    · simp only [Run.yields_bind, Run.yields_pure, Prod.mk.injEq] at h
      obtain ⟨_, u, hclose, ⟨rfl, rfl⟩, rfl⟩ := h
      exact .stop hc (.of_closeRepeat hclose)
    · simp only [Run.yields_pure, Prod.mk.injEq] at h
      obtain ⟨⟨rfl, rfl⟩, rfl⟩ := h
      exact .stop hc (.refl _)
  | imageTransform name identity =>
    simp only [hc, Run.yields_bind, Run.yields_pure, Prod.mk.injEq] at h
    obtain ⟨_, u, hn, ⟨rfl, rfl⟩, rfl⟩ := h
    exact .idle (by rw [hc]; rfl) (.of_note hn)
  | ignored name =>
    simp only [hc, Run.yields_bind, Run.yields_pure, Prod.mk.injEq] at h
    obtain ⟨_, u, hn, ⟨rfl, rfl⟩, rfl⟩ := h
    exact .idle (by rw [hc]; rfl) (.of_note hn)
  | comment =>
    simp only [hc, Run.yields_pure, Prod.mk.injEq] at h
    obtain ⟨⟨rfl, rfl⟩, rfl⟩ := h
    exact .idle (by rw [hc]; rfl) (.refl _)
  | header =>
    simp only [hc, Run.yields_pure, Prod.mk.injEq] at h
    obtain ⟨⟨rfl, rfl⟩, rfl⟩ := h
    exact .idle (by rw [hc]; rfl) (.refl _)
  | unknown =>
    simp only [hc, Run.yields_bind, Run.yields_pure, Prod.mk.injEq] at h
    obtain ⟨_, u, hn, ⟨rfl, rfl⟩, rfl⟩ := h
    exact .idle (by rw [hc]; rfl) (.of_note hn)

/-- The cursor after a command with an outcome, which made `step` of the pending step. -/
def Cursor.follow (cursor : Cursor α) (outcome : Outcome) (step : Step α) : Cursor α :=
  match outcome with
  | .next => { cursor with pending := step }
  | .skip => { cursor with pending := step }
  | .complete => cursor.complete step
  | .stop => ⟨step :: cursor.completed, step⟩

theorem Cursor.steps_follow (cursor : Cursor α) (outcome : Outcome) (step : Step α) :
    (cursor.follow outcome step).steps =
      cursor.steps ++ if outcome = .complete ∨ outcome = .stop then [step] else [] := by
  cases outcome <;> simp [Cursor.follow, Cursor.complete, Cursor.steps]

/-- The commands of a stream at work, one effect after the other.  A stop ends the stream, and
the commands after it have no effect. -/
inductive Advances (setting : Setting α) :
    Cursor α → Session α → List Token → Cursor α → Bool → Session α → Prop
  | done {cursor : Cursor α} {s t : Session α} :
      s.SameBooks t → Advances setting cursor s [] cursor false t
  | step {cursor final : Cursor α} {s t u : Session α} {token : Token} {rest : List Token}
      {outcome : Outcome} {step : Step α} {stopped : Bool} :
      Effect setting cursor.pending cursor.last.coord token s outcome step u → outcome ≠ .stop →
      Advances setting (cursor.follow outcome step) u rest final stopped t →
        Advances setting cursor s (token :: rest) final stopped t
  | stop {cursor : Cursor α} {s t u : Session α} {token : Token} {rest : List Token}
      {step : Step α} :
      Effect setting cursor.pending cursor.last.coord token s .stop step u → u.SameBooks t →
        Advances setting cursor s (token :: rest) (cursor.follow .stop step) true t

theorem advances_of_advance {cursor final : Cursor α} {tokens : List Token} {stopped : Bool}
    (h : (advance setting cursor tokens).Yields s (final, stopped) t) :
    Advances setting cursor s tokens final stopped t := by
  induction tokens generalizing cursor s with
  | nil =>
    rw [advance, Run.yields_pure, Prod.mk.injEq] at h
    obtain ⟨⟨rfl, rfl⟩, rfl⟩ := h
    exact .done (.refl _)
  | cons token rest ih =>
    rw [advance, Run.yields_bind] at h
    obtain ⟨⟨outcome, step⟩, u, happly, h⟩ := h
    have heffect := effect_of_apply (Run.yields_located.mp happly)
    cases outcome with
    | next => exact .step heffect (by decide) (ih h)
    | skip => exact .step heffect (by decide) (ih h)
    | complete => exact .step heffect (by decide) (ih h)
    | stop =>
      simp only at h
      split at h
      · simp only [Run.yields_bind, Run.yields_pure, Prod.mk.injEq] at h
        obtain ⟨_, _, hn, ⟨rfl, rfl⟩, rfl⟩ := h
        exact .stop heffect (.of_note hn)
      · simp only [Run.yields_pure, Prod.mk.injEq] at h
        obtain ⟨⟨rfl, rfl⟩, rfl⟩ := h
        exact .stop heffect (.refl _)

/-- What every effect keeps, a stream keeps. -/
theorem Advances.invariant {Inv : Cursor α → Session α → Prop}
    (hbooks : ∀ cursor s t, s.SameBooks t → Inv cursor s → Inv cursor t)
    (hkeep : ∀ cursor token s outcome step t,
      Effect setting cursor.pending cursor.last.coord token s outcome step t →
        Inv cursor s → Inv (cursor.follow outcome step) t)
    {cursor final : Cursor α} {tokens : List Token} {stopped : Bool}
    (h : Advances setting cursor s tokens final stopped t) (hinv : Inv cursor s) :
    Inv final t := by
  induction h with
  | done hs => exact hbooks _ _ _ hs hinv
  | step he _ _ ih => exact ih (hkeep _ _ _ _ _ _ he hinv)
  | stop he hs => exact hbooks _ _ _ hs (hkeep _ _ _ _ _ _ he hinv)

theorem Advances.sameBooks {cursor final : Cursor α} {tokens : List Token} {stopped : Bool}
    {u : Session α} (h : Advances setting cursor s tokens final stopped t) (hu : t.SameBooks u) :
    Advances setting cursor s tokens final stopped u := by
  induction h with
  | done hs => exact .done (hs.trans hu)
  | step he hne _ ih => exact .step he hne (ih hu)
  | stop he hs => exact .stop he (hs.trans hu)

/-- What is left to do after the last command only adds notices. -/
theorem advance_of_compile {tokens : List Token} {compiled : Compiled α}
    (h : (compile setting tokens).Yields s compiled t) :
    ∃ final u, (advance setting .initial tokens).Yields s (final, compiled.stopped) u ∧
      u.SameBooks t ∧ compiled.steps = final.steps := by
  rw [compile, Run.yields_bind] at h
  obtain ⟨⟨final, stopped⟩, u, hadvance, h⟩ := h
  have hend {v : Session α} (hv : u.SameBooks v)
      (h : (do
        if final.pending.region.isSome then
          if ← Run.isRegionOpen final.pending.region then Run.note .regionLeftOpen
        pure ⟨final.steps, stopped⟩ : Run α (Compiled α)).Yields v compiled t) :
      u.SameBooks t ∧ compiled = ⟨final.steps, stopped⟩ := by
    split at h
    · rw [Run.yields_bind] at h
      obtain ⟨answer, _, ho, h⟩ := h
      obtain ⟨-, rfl⟩ := Run.yields_isRegionOpen.mp ho
      split at h
      · rw [Run.yields_bind] at h
        obtain ⟨_, w, hn, h⟩ := h
        obtain ⟨rfl, rfl⟩ := Run.yields_pure.mp h
        exact ⟨hv.trans (.of_note hn), rfl⟩
      · obtain ⟨rfl, rfl⟩ := Run.yields_pure.mp h
        exact ⟨hv, rfl⟩
    · obtain ⟨rfl, rfl⟩ := Run.yields_pure.mp h
      exact ⟨hv, rfl⟩
  have hfinal : u.SameBooks t ∧ compiled = ⟨final.steps, stopped⟩ := by
    simp only at h
    split at h
    · rw [Run.yields_bind] at h
      obtain ⟨_, v, hclose, h⟩ := h
      exact hend (.of_closeRepeat hclose) h
    · exact hend (.refl _) h
  obtain ⟨hbooks, rfl⟩ := hfinal
  exact ⟨final, u, hadvance, hbooks, rfl⟩

/-- A compiled stream is where its commands lead from the start. -/
theorem advances_of_compile {tokens : List Token} {compiled : Compiled α}
    (h : (compile setting tokens).Yields s compiled t) :
    ∃ final, Advances setting .initial s tokens final compiled.stopped t ∧
      compiled.steps = final.steps := by
  obtain ⟨final, u, hadvance, hbooks, hsteps⟩ := advance_of_compile h
  exact ⟨final, (advances_of_advance hadvance).sameBooks hbooks, hsteps⟩

end Stream

end Gerber
