import Gerber.Proofs.Stream.Frame
import Gerber.Proofs.Stream.References
import Gerber.Proofs.Stream.RegionBooks

/-!
# Commands that are refused

All the causes for which a command cannot be carried out, one rule for each check.  A stream that
fails does so at one of its commands, and for one of these causes; since what it refers to is there,
it is not for want of a step-and-repeat block.
-/

namespace Gerber

variable {α : Type}

namespace Run

variable {s t : Session α} {e : Error}

private theorem not_fails_openRegion {line : Nat} : ¬ (openRegion line : Run α Nat).Fails s e t :=
  fun h => absurd ((Reports.openRegion line).code_mem s e t h) List.not_mem_nil

private theorem not_fails_openRepeat {block : StepRepeat α} : ¬ (openRepeat block).Fails s e t :=
  fun h => absurd ((Reports.openRepeat block).code_mem s e t h) List.not_mem_nil

private theorem not_fails_closeRepeat {id : Nat} : ¬ (closeRepeat id : Run α Unit).Fails s e t :=
  fun h => absurd ((Reports.closeRepeat id).code_mem s e t h) List.not_mem_nil

private theorem not_fails_forSome_addVertex {id : Option Nat} {c : Coord α} :
    ¬ (forSome id (addVertex · c)).Fails s e t :=
  fun h => absurd ((Reports.forSome id fun k => .addVertex k c).code_mem s e t h) List.not_mem_nil

private theorem fails_isRegionOpen {id : Option Nat} :
    (isRegionOpen id : Run α Bool).Fails s e t ↔
      ∃ fault, s.regions.isOpen id = .error fault ∧ e = { fault } ∧ t = s := by
  simp [isRegionOpen]

end Run

namespace Command

private theorem operation?_ne_regionEnd {t : Text} : operation? t ≠ some regionEnd := by
  intro h
  obtain ⟨_, -, hend⟩ := List.exists_of_findSome?_eq_some h
  obtain ⟨_, -, hcommand⟩ := Option.map_eq_some_iff.mp hend
  cases hcommand

private theorem select?_ne_regionEnd {t : Text} : select? t ≠ some regionEnd := by
  intro h
  simp only [select?, Option.bind_eq_bind, Option.bind_eq_some_iff] at h
  obtain ⟨_, -, _, -, code, -, hcode⟩ := h
  split at hcode <;> cases hcode

private theorem ofInner_ne_regionEnd {inner : Text} : ofInner inner ≠ regionEnd := by
  intro h
  simp only [ofInner] at h
  repeat (split at h; cases h)
  cases h

private theorem ofText_eq_regionEnd_iff {t : Text} : ofText t = regionEnd ↔ t = "G37*".toList := by
  constructor
  · intro h
    unfold ofText at h
    split at h
    · cases h
    split at h
    · exact absurd h ofInner_ne_regionEnd
    rcases ofBlock_cases t with hfixed | hoperation | hselect | hunknown
    · rw [h] at hfixed
      simpa [fixedBlocks] using hfixed
    · exact absurd (hoperation.trans (congrArg some h)) operation?_ne_regionEnd
    · exact absurd (hselect.trans (congrArg some h)) select?_ne_regionEnd
    · cases hunknown.symm.trans h
  · rintro rfl
    decide

end Command

/-- The error lies at one of the commands and is one of the conditions `codes`.  It is the want of a
region only at a command that closes one. -/
def Error.LiesIn (commands : List Token) (codes : List Nat) (e : Error) : Prop :=
  ∃ token ∈ commands, e.place = some ⟨token.line, token.text⟩ ∧ e.code ∈ codes ∧
    (e.fault = .regionNotOpen → token.text = "G37*".toList)

theorem Error.LiesIn.mono {commands others : List Token} {codes more : List Nat} {e : Error}
    (h : e.LiesIn commands codes) (hcommands : commands ⊆ others) (hcodes : codes ⊆ more) :
    e.LiesIn others more := by
  obtain ⟨token, hmem, hplace, hcode, hregion⟩ := h
  exact ⟨token, hcommands hmem, hplace, hcodes hcode, hregion⟩

namespace Stream

variable [Scalar α]

/-- Why a command is refused.  `last` is the coordinate of the last step. -/
inductive Refusal (setting : Setting α) (pending : Step α) (last : Coord α) (token : Token)
    (s : Session α) : Fault → Prop
  | regionBegin {fault : Fault} :
      Command.ofText token.text = .regionBegin → pending.region.isSome →
      s.regions.isOpen pending.region = .error fault → Refusal setting pending last token s fault
  | regionEnd {fault : Fault} :
      Command.ofText token.text = .regionEnd →
      s.regions.close pending.region token.line = .error fault →
        Refusal setting pending last token s fault
  | coordinate {body : Text} {action : Action} {fault : Fault} :
      Command.ofText token.text = .operation body action →
      Coord.ofBody setting.format (some last) body = .error fault →
        Refusal setting pending last token s fault
  | count {body : Text} {action : Action} {id : Nat} {fault : Fault} :
      Command.ofText token.text = .operation body action → pending.stepRepeat = some id →
      s.stepRepeats.adjust id 1 = .error fault → Refusal setting pending last token s fault
  | select {code : Nat} {fault : Fault} :
      Command.ofText token.text = .select code → setting.apertures.lookup code = .error fault →
        Refusal setting pending last token s fault
  | repeatOpen {why : StepRepeatFault} :
      Command.ofText token.text = .stepRepeatOpen →
      (StepRepeat.ofCommand token.text setting.format token.line :
        Except StepRepeatFault (StepRepeat α)) = .error why →
        Refusal setting pending last token s (.stepRepeat why)

variable {setting : Setting α} {pending : Step α} {last : Coord α} {s t : Session α}
  {token : Token} {e : Error} {fault : Fault}

private theorem refusal_of_operate {body : Text} {action : Action}
    (hc : Command.ofText token.text = .operation body action)
    (h : (operate setting pending last token.line body action).Fails s e t) :
    ∃ fault, e = { fault } ∧ Refusal setting pending last token s fault := by
  simp only [operate_eq, Run.fails_bind, Run.fails_ofExcept, Run.yields_ofExcept, Run.fails_pure,
    and_false, exists_false, or_false] at h
  rcases h with ⟨fault, hcoord, rfl, -⟩ | ⟨coord, _, ⟨-, rfl⟩, h⟩
  · exact ⟨fault, rfl, .coordinate hc hcoord⟩
  rcases h with hvertex | ⟨_, u, hvertex, hcount⟩
  · exact absurd hvertex Run.not_fails_forSome_addVertex
  · rw [Run.yields_forSome_addVertex] at hvertex
    subst hvertex
    cases hid : pending.stepRepeat with
    | none => simp [hid] at hcount
    | some id =>
      rw [hid, Run.forSome_some, Run.fails_adjustRepeat] at hcount
      obtain ⟨fault, hadjust, rfl, -⟩ := hcount
      exact ⟨fault, rfl, .count hc hid hadjust⟩

private theorem refusal_of_openRepeat {u : Session α}
    (hc : Command.ofText token.text = .stepRepeatOpen)
    (h : (do
      let block ← Run.ofExcept
        ((StepRepeat.ofCommand token.text setting.format token.line).mapError .stepRepeat)
      let id ← Run.openRepeat block
      pure (.next, { pending with stepRepeat := some id }) :
        Run α (Outcome × Step α)).Fails u e t) :
    ∃ fault, e = { fault } ∧ Refusal setting pending last token s fault := by
  simp only [Run.fails_bind, Run.fails_ofExcept, Except.mapError_eq_error, Run.not_fails_openRepeat,
    Run.fails_pure, and_false, exists_false, or_false] at h
  obtain ⟨_, ⟨why, hblock, rfl⟩, rfl, -⟩ := h
  exact ⟨_, rfl, .repeatOpen hc hblock⟩

/-- Every command that fails is refused for one of the causes. -/
theorem refusal_of_apply (h : (apply setting pending last token).Fails s e t) :
    ∃ fault, e = { fault } ∧ Refusal setting pending last token s fault := by
  unfold apply at h
  cases hc : Command.ofText token.text with
  | regionBegin =>
    simp only [hc] at h
    split at h
    · rename_i hsome
      rcases Run.fails_bind.mp h with hcheck | ⟨answer, u, -, h⟩
      · obtain ⟨fault, hopen, rfl, -⟩ := Run.fails_isRegionOpen.mp hcheck
        exact ⟨fault, rfl, .regionBegin hc hsome hopen⟩
      · split at h <;> simp [Run.not_fails_openRegion] at h
    · simp [Run.not_fails_openRegion] at h
  | regionEnd =>
    simp only [hc, Run.fails_bind, fails_closeRegion_iff, Run.fails_pure, and_false, exists_false,
      or_false] at h
    obtain ⟨fault, hclose, rfl, -⟩ := h
    exact ⟨fault, rfl, .regionEnd hc hclose⟩
  | operation body action =>
    simp only [hc] at h
    exact refusal_of_operate hc h
  | select code =>
    simp only [hc, Run.fails_bind, Run.fails_ofExcept, Run.fails_pure, and_false, exists_false,
      or_false] at h
    obtain ⟨fault, hlookup, rfl, -⟩ := h
    exact ⟨fault, rfl, .select hc hlookup⟩
  | stepRepeatOpen =>
    simp only [hc] at h
    split at h
    · rcases Run.fails_bind.mp h with hclose | ⟨_, u, -, h⟩
      · exact absurd hclose Run.not_fails_closeRepeat
      · exact refusal_of_openRepeat hc h
    · exact refusal_of_openRepeat hc h
  | stepRepeatClose =>
    simp only [hc] at h
    split at h <;> simp [Run.not_fails_closeRepeat] at h
  | stop =>
    simp only [hc] at h
    split at h <;> simp [Run.not_fails_closeRepeat] at h
  | _ => simp [hc] at h

/-- The conditions of the commands of a stream that refers only to what is there. -/
def refusalConditions : List Nat := [20, 31, 50, 60]

/-- The step-and-repeat block that is bound can be counted up, if not without limit. -/
theorem Refusal.code_mem (h : Refusal setting pending last token s fault)
    (hrefers : pending.Refers setting.apertures s) : fault.code ∈ refusalConditions := by
  cases h with
  | regionBegin _ _ hopen =>
    exact ((s.regions.faultsIn_isOpen _).mono (by decide)).code_mem fault hopen
  | regionEnd _ hclose =>
    exact ((s.regions.faultsIn_close _ _).mono (by decide)).code_mem fault hclose
  | coordinate _ hcoord =>
    exact ((Coord.faultsIn_ofBody _ _ _).mono (by decide)).code_mem fault hcoord
  | count _ hid hadjust =>
    obtain ⟨block, hget⟩ := StepRepeats.exists_get? (hrefers.stepRepeat _ hid)
    obtain ⟨why, rfl⟩ := StepRepeats.fault_of_adjust hget hadjust
    simp [Fault.code, refusalConditions]
  | select _ hlookup =>
    exact ((setting.apertures.faultsIn_lookup _).mono (by decide)).code_mem fault hlookup
  | repeatOpen _ _ => simp [Fault.code, refusalConditions]

/-- A stream that fails has come to a command that is refused, and the error lies at it. -/
theorem liesIn_of_compile {tokens : List Token} (h : (compile setting tokens).Fails s e t) :
    e.LiesIn tokens refusalConditions := by
  obtain ⟨before, token, after, cursor, u, rfl, hbefore, hfails⟩ :=
    fails_advance_iff.mp (fails_compile_iff.mp h)
  obtain ⟨e', happly, rfl⟩ := Run.fails_located.mp hfails
  obtain ⟨fault, rfl, hrefusal⟩ := refusal_of_apply happly
  have hadvances := advances_of_advance hbefore
  refine ⟨token, by simp, rfl, hrefusal.code_mem (anchored_of_advances hadvances).pending, ?_⟩
  intro hregion
  obtain ⟨hcloses, -⟩ :=
    (fails_apply_regionNotOpen_iff hadvances.hasOpen).mp ⟨happly, hregion⟩
  exact Command.ofText_eq_regionEnd_iff.mp (decide_eq_true_iff.mp hcloses)

end Stream

end Gerber
