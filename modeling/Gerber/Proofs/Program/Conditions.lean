import Gerber.Program
import Gerber.Proofs.Stream.Effect

/-!
# The conditions that a stage reports

Each stage of a compilation can fail for a few causes only, which its lists of conditions name by
their numbers.  The limit on the number of inlining passes is the matter of inlining alone.
-/

namespace Gerber

variable {α β γ : Type}

/-- A result that is no value is one of the conditions `codes`. -/
structure FaultsIn (codes : List Nat) (result : Except Fault β) : Prop where
  code_mem : ∀ fault, result = .error fault → fault.code ∈ codes

namespace FaultsIn

variable {codes more : List Nat}

theorem mono {result : Except Fault β} (h : FaultsIn codes result) (hsub : codes ⊆ more) :
    FaultsIn more result :=
  ⟨fun fault hfault => hsub (h.code_mem fault hfault)⟩

theorem ok (b : β) : FaultsIn codes (.ok b) := by
  refine ⟨fun fault hfault => ?_⟩
  cases hfault

theorem error {fault : Fault} (h : fault.code ∈ codes) :
    FaultsIn codes (.error fault : Except Fault β) := by
  refine ⟨fun other hother => ?_⟩
  cases hother
  exact h

theorem bind {result : Except Fault β} {f : β → Except Fault γ} (h : FaultsIn codes result)
    (hf : ∀ b, FaultsIn codes (f b)) : FaultsIn codes (result >>= f) := by
  cases result with
  | ok b => exact hf b
  | error fault => exact .error (h.code_mem fault rfl)

theorem map {result : Except Fault β} (h : FaultsIn codes result) (f : β → γ) :
    FaultsIn codes (result.map f) := by
  cases result with
  | ok b => exact .ok _
  | error fault => exact .error (h.code_mem fault rfl)

theorem mapError {ε : Type} {result : Except ε β} {f : ε → Fault} (h : ∀ e, (f e).code ∈ codes) :
    FaultsIn codes (result.mapError f) := by
  cases result with
  | ok b => exact .ok _
  | error e => exact .error (h e)

end FaultsIn

section

variable [Scalar α]

def formatConditions : List Nat := [11, 12, 13, 14]

theorem Format.faultsIn_ofCommands (fs mo : Text) :
    FaultsIn formatConditions (ofCommands fs mo) := by
  unfold ofCommands
  refine .bind ?_ fun units => ?_
  · unfold Units.ofCommand
    split
    · exact .ok _
    · split
      · exact .ok _
      · exact .error (by simp [Fault.code, formatConditions])
  · unfold ofHeader
    split
    · unfold ofAxes
      simp only
      split
      · exact .error (by simp [Fault.code, formatConditions])
      · split
        · exact .error (by simp [Fault.code, formatConditions])
        · split
          · exact .error (by simp [Fault.code, formatConditions])
          · exact .ok _
    · exact .error (by simp [Fault.code, formatConditions])
    · exact .error (by simp [Fault.code, formatConditions])
    · exact .error (by simp [Fault.code, formatConditions])

private theorem Format.faultsIn_decode (format : Format) (numeral : Text) :
    FaultsIn [20] (format.decode numeral : Except Fault α) := by
  unfold decode
  simp only
  split
  · exact .error (by simp [Fault.code])
  · split
    · exact .error (by simp [Fault.code])
    · split
      · exact .error (by simp [Fault.code])
      · exact .ok _

private theorem Coord.faultsIn_readAxes (format : Format) (body : Text) (c : Coord α) (t : Text) :
    FaultsIn [20] (readAxes format body c t) := by
  fun_induction readAxes format body c t with
  | case1 => exact .ok _
  | case2 c letter t fault hdecode =>
    exact .error ((format.faultsIn_decode _).code_mem fault hdecode)
  | case3 _ _ _ _ _ _ _ ih => exact ih
  | case4 => exact .error (by simp [Fault.code])

theorem Coord.faultsIn_ofBody (format : Format) (previous : Option (Coord α)) (body : Text) :
    FaultsIn [20] (ofBody format previous body) := by
  unfold ofBody
  split
  · exact .error (by simp [Fault.code])
  · exact faultsIn_readAxes ..

omit [Scalar α] in
theorem Apertures.faultsIn_lookup (table : Apertures α) (code : Nat) :
    FaultsIn [31] (table.lookup code) := by
  unfold lookup
  split
  · exact .ok _
  · exact .error (by simp [Fault.code])

omit [Scalar α] in
theorem Regions.faultsIn_isOpen (r : Regions α) (id : Option Nat) :
    FaultsIn [50] (r.isOpen id) := by
  unfold isOpen
  split
  · exact .ok _
  · exact .error (by simp [Fault.code])

omit [Scalar α] in
theorem Regions.faultsIn_close (r : Regions α) (id : Option Nat) (line : Nat) :
    FaultsIn [50] (r.close id line) := by
  unfold close
  split
  · exact .error (by simp [Fault.code])
  · split
    · exact .error (by simp [Fault.code])
    · split
      · exact .ok _
      · exact .error (by simp [Fault.code])

omit [Scalar α] in
private theorem StepRepeats.faultsIn_adjust (r : StepRepeats α) (id : Nat) (delta : Int) :
    FaultsIn [60, 61] (r.adjust id delta) := by
  unfold adjust
  split
  · exact .error (by simp [Fault.code])
  · simp only
    split
    · exact .error (by simp [Fault.code])
    · exact .ok _

def figureConditions : List Nat := [30, 40]

private theorem ApertureMacro.faultsIn_figure (bindings : Bindings α) (scale : α)
    (p : MacroPrimitive α) : FaultsIn figureConditions (figure bindings scale p) := by
  unfold figure
  split
  · exact .error (by simp [Fault.code, figureConditions])
  · exact .mapError fun why => by simp [Fault.code, figureConditions]

private theorem ApertureMacro.faultsIn_figuresFrom (scale : α) (index : Nat) (bindings : Bindings α)
    (assignments : List (Assignment α)) (primitives : List (MacroPrimitive α)) :
    FaultsIn figureConditions (figuresFrom scale index bindings assignments primitives) := by
  induction primitives generalizing index bindings assignments with
  | nil => exact .ok _
  | cons p rest ih =>
    refine .bind (.mapError fun why => by simp [Fault.code, figureConditions]) fun next => ?_
    refine .bind (faultsIn_figure ..) fun first => ?_
    exact .bind (ih ..) fun others => .ok _

def apertureConditions : List Nat := [30, 32, 40]

private theorem Shape.faultsIn_ofTemplate (macros : Macros α) (scale : α)
    {located : DefinitionFault → Fault} (hlocated : ∀ why, (located why).code = 30)
    (template : Text) (parameters : List α) :
    FaultsIn apertureConditions (ofTemplate macros scale located template parameters) := by
  have hcode (why : DefinitionFault) : (located why).code ∈ apertureConditions := by
    rw [hlocated]
    decide
  unfold ofTemplate
  split
  · exact .mapError hcode
  · exact .mapError hcode
  · exact .mapError hcode
  · exact .mapError hcode
  · unfold ofMacro
    split
    · exact .error (by simp [Fault.code, apertureConditions])
    · exact ((ApertureMacro.faultsIn_figuresFrom ..).mono (by decide)).map _

theorem Aperture.faultsIn_ofCommand (source : Text) (format : Format) (macros : Macros α) :
    FaultsIn apertureConditions (ofCommand source format macros) := by
  have hcode (why : DefinitionFault) :
      (Fault.aperture (.definition why source)).code ∈ apertureConditions := by
    simp [Fault.code, apertureConditions]
  unfold ofCommand
  simp only
  split
  · exact .error (hcode _)
  · refine .bind (.mapError hcode) fun (code, rest) => ?_
    simp only
    split
    · exact .error (hcode _)
    · split
      · exact .error (hcode _)
      · exact .bind (Shape.faultsIn_ofTemplate _ _ (fun _ => rfl) _ _) fun shape => .ok _

end

/-- What the run fails with is one of the conditions `codes`. -/
structure Run.Reports (codes : List Nat) (run : Run α β) : Prop where
  code_mem : ∀ s e t, run.Fails s e t → e.code ∈ codes

namespace Run.Reports

variable {codes more : List Nat}

theorem mono {run : Run α β} (h : Reports codes run) (hsub : codes ⊆ more) : Reports more run :=
  ⟨fun s e t hfails => hsub (h.code_mem s e t hfails)⟩

theorem pure (b : β) : Reports codes (Pure.pure b : Run α β) :=
  ⟨fun _ _ _ hfails => absurd hfails Run.fails_pure⟩

theorem fail {fault : Fault} (h : fault.code ∈ codes) :
    Reports codes (Run.fail fault : Run α β) := by
  refine ⟨fun s e t hfails => ?_⟩
  obtain ⟨rfl, -⟩ := Run.fails_fail.mp hfails
  exact h

theorem bind {run : Run α β} {f : β → Run α γ} (h : Reports codes run)
    (hf : ∀ b, Reports codes (f b)) : Reports codes (run >>= f) := by
  refine ⟨fun s e t hfails => ?_⟩
  rcases Run.fails_bind.mp hfails with hfails | ⟨b, u, -, hfails⟩
  · exact h.code_mem s e t hfails
  · exact (hf b).code_mem u e t hfails

theorem ofExcept {result : Except Fault β} (h : FaultsIn codes result) :
    Reports codes (Run.ofExcept result : Run α β) := by
  refine ⟨fun s e t hfails => ?_⟩
  obtain ⟨fault, hresult, rfl, -⟩ := Run.fails_ofExcept.mp hfails
  exact h.code_mem fault hresult

theorem located {run : Run α β} (h : Reports codes run) (line : Nat) (text : Text) :
    Reports codes (Run.located line text run) := by
  refine ⟨fun s e t hfails => ?_⟩
  obtain ⟨e', hinner, rfl⟩ := Run.fails_located.mp hfails
  have hcode : (e'.locate line text).code = e'.code := by
    unfold Error.locate
    split <;> rfl
  exact hcode ▸ h.code_mem s e' t hinner

theorem note (notice : Notice) : Reports codes (Run.note notice : Run α Unit) :=
  ⟨fun _ _ _ hfails => absurd hfails Run.fails_note⟩

theorem get : Reports codes (MonadState.get : Run α (Session α)) :=
  ⟨fun _ _ _ hfails => absurd hfails Run.fails_get⟩

theorem set (s : Session α) : Reports codes (MonadStateOf.set s : Run α PUnit) :=
  ⟨fun _ _ _ hfails => absurd hfails Run.fails_set⟩

theorem forSome (id : Option Nat) {act : Nat → Run α Unit} (h : ∀ k, Reports codes (act k)) :
    Reports codes (Run.forSome id act) := by
  cases id with
  | none => exact .pure _
  | some k => exact h k

theorem openRegion (line : Nat) : Reports codes (Run.openRegion line : Run α Nat) :=
  .bind .get fun _ => .bind (.set _) fun _ => .pure _

theorem openRepeat (block : StepRepeat α) : Reports codes (Run.openRepeat block) :=
  .bind .get fun _ => .bind (.set _) fun _ => .pure _

theorem addVertex (id : Nat) (c : Coord α) : Reports codes (Run.addVertex id c) :=
  ⟨fun _ _ _ hfails => absurd hfails Run.fails_modify⟩

theorem closeRepeat (id : Nat) : Reports codes (Run.closeRepeat id : Run α Unit) := by
  refine .bind .get fun s => ?_
  split
  · split
    · exact .note _
    · exact .pure _
  · exact .pure _

theorem isRegionOpen (id : Option Nat) : Reports [50] (Run.isRegionOpen id : Run α Bool) :=
  .bind .get fun s => .ofExcept (s.regions.faultsIn_isOpen id)

theorem adjustRepeat (id : Nat) (delta : Int) :
    Reports [60, 61] (Run.adjustRepeat id delta : Run α Unit) :=
  .bind .get fun s => .bind (.ofExcept (s.stepRepeats.faultsIn_adjust id delta)) fun _ => .set _

theorem closeRegion [Scalar α] (id : Option Nat) (line : Nat) (tolerance : α) :
    Reports [50] (Run.closeRegion id line tolerance) := by
  refine .bind .get fun s => .bind (.ofExcept (s.regions.faultsIn_close id line)) fun closed => ?_
  refine .bind (.set _) fun _ => ?_
  split
  · exact .note _
  · exact .pure _

end Run.Reports

open Run (Reports)

variable [Scalar α]

/-- The conditions of the commands that neither open nor close regions. -/
def drawingConditions : List Nat := [20, 31, 60, 61]

def streamConditions : List Nat := [20, 31, 50, 60, 61]

namespace Stream

private theorem reports_operate (setting : Setting α) (pending : Step α) (last : Coord α)
    (line : Nat) (body : Text) (action : Action) :
    Reports drawingConditions (operate setting pending last line body action) := by
  rw [operate_eq]
  refine .bind (.ofExcept ((Coord.faultsIn_ofBody ..).mono (by decide))) fun coord => ?_
  refine .bind (.forSome _ fun id => .addVertex id coord) fun _ => ?_
  refine .bind (.forSome _ fun id => (Reports.adjustRepeat id 1).mono (by decide)) fun _ => ?_
  exact .pure _

/-- Only commands that open or close regions report conditions of regions. -/
theorem reports_apply_of_ne (setting : Setting α) (pending : Step α) (last : Coord α)
    {token : Token} (hbegin : Command.ofText token.text ≠ .regionBegin)
    (hend : Command.ofText token.text ≠ .regionEnd) :
    Reports drawingConditions (apply setting pending last token) := by
  have hrepeat : Reports drawingConditions (do
      let block ← Run.ofExcept
        ((StepRepeat.ofCommand token.text setting.format token.line).mapError .stepRepeat)
      let id ← Run.openRepeat block
      pure (.next, { pending with stepRepeat := some id }) : Run α (Outcome × Step α)) := by
    refine .bind (.ofExcept (.mapError fun why => by simp [Fault.code, drawingConditions]))
      fun block => ?_
    exact .bind (.openRepeat _) fun _ => .pure _
  unfold apply
  split
  · exact .pure _
  · exact .pure _
  · exact .pure _
  · exact absurd ‹_› hbegin
  · exact absurd ‹_› hend
  · exact reports_operate ..
  · exact .bind (.ofExcept ((Apertures.faultsIn_lookup ..).mono (by decide))) fun _ => .pure _
  · split
    · exact .bind (.closeRepeat _) fun _ => hrepeat
    · exact hrepeat
  · split
    · exact .bind (.closeRepeat _) fun _ => .pure _
    · exact .bind (.note _) fun _ => .pure _
  · split
    · exact .bind (.closeRepeat _) fun _ => .pure _
    · exact .pure _
  · exact .bind (.note _) fun _ => .pure _
  · exact .bind (.note _) fun _ => .pure _
  · exact .pure _
  · exact .pure _
  · exact .bind (.note _) fun _ => .pure _

private theorem reports_apply (setting : Setting α) (pending : Step α) (last : Coord α)
    (token : Token) : Reports streamConditions (apply setting pending last token) := by
  by_cases hbegin : Command.ofText token.text = .regionBegin
  · have hopen : Reports streamConditions (do
        let id ← Run.openRegion token.line
        pure (.next, { pending with region := some id }) : Run α (Outcome × Step α)) :=
      .bind (.openRegion _) fun _ => .pure _
    simp only [apply, hbegin]
    split
    · refine .bind ((Reports.isRegionOpen _).mono (by decide)) fun answer => ?_
      split
      · exact .bind (.note _) fun _ => hopen
      · exact hopen
    · exact hopen
  by_cases hend : Command.ofText token.text = .regionEnd
  · simp only [apply, hend]
    exact .bind ((Reports.closeRegion ..).mono (by decide)) fun _ => .pure _
  exact (reports_apply_of_ne setting pending last hbegin hend).mono (by decide)

private theorem reports_advance (setting : Setting α) (cursor : Cursor α) (tokens : List Token) :
    Reports streamConditions (advance setting cursor tokens) := by
  induction tokens generalizing cursor with
  | nil => exact .pure _
  | cons token rest ih =>
    refine .bind (.located (reports_apply ..) _ _) fun (outcome, step) => ?_
    cases outcome with
    | next => exact ih _
    | skip => exact ih _
    | complete => exact ih _
    | stop =>
      simp only
      split
      · exact .bind (.note _) fun _ => .pure _
      · exact .pure _

/-- A stream reports only what its commands can report. -/
theorem reports_compile (setting : Setting α) (tokens : List Token) :
    Reports streamConditions (compile setting tokens) := by
  refine .bind (reports_advance ..) fun (cursor, stopped) => ?_
  have hend : Reports streamConditions (do
      if cursor.pending.region.isSome then
        if ← Run.isRegionOpen cursor.pending.region then Run.note .regionLeftOpen
      pure ⟨cursor.steps, stopped⟩ : Run α (Compiled α)) := by
    split
    · refine .bind ((Reports.isRegionOpen _).mono (by decide)) fun answer => ?_
      split
      · exact .bind (.note _) fun _ => .pure _
      · exact .pure _
    · exact .pure _
  simp only
  split
  · exact .bind (.closeRepeat _) fun _ => hend
  · exact hend

end Stream

/-- The conditions of the definitions of a file: those of macros, apertures and block commands,
and those of the streams of blocks. -/
def definitionConditions : List Nat :=
  [33, 34, 35, 36, 37] ++ apertureConditions ++ [70, 71] ++ streamConditions

namespace Definitions

omit [Scalar α] in
theorem reports_define {codes : List Nat} (d : Definitions α) (a : Aperture α) (line : Nat) :
    Reports codes (d.define a line) := by
  unfold define
  split
  · exact .bind (.note _) fun _ => .pure _
  · exact .pure _

private theorem reports_take (format : Format) (tolerance : α) (d : Definitions α) (token : Token) :
    Reports definitionConditions (d.take format tolerance token) := by
  unfold take
  split
  · exact .pure _
  · exact .pure _
  · refine .bind (.ofExcept (.mapError fun why => ?_)) fun _ => .pure _
    cases why <;> simp [Fault.code, MacroFault.code, definitionConditions]
  · exact .bind (.ofExcept ((Aperture.faultsIn_ofCommand ..).mono (by decide))) fun a =>
      reports_define ..
  · refine .bind (.ofExcept (.mapError fun why => ?_)) fun directive => ?_
    · simp [Fault.code, definitionConditions]
    · cases directive with
      | opening code => exact .pure _
      | closing =>
        simp only [closeBlock]
        split
        · exact .fail (by decide)
        · refine .bind ((Stream.reports_compile ..).mono (by decide)) fun compiled => ?_
          exact .bind (.note _) fun _ => reports_define ..

private theorem reports_takeAll (format : Format) (tolerance : α) (d : Definitions α)
    (tokens : List Token) :
    Reports definitionConditions (takeAll format tolerance d tokens) := by
  induction tokens generalizing d with
  | nil => exact .pure _
  | cons token rest ih => exact .bind (.located (reports_take ..) _ _) fun _ => ih _

theorem reports_ofTokens (format : Format) (tolerance : α) (tokens : List Token) :
    Reports definitionConditions (ofTokens format tolerance tokens) := by
  refine .bind (reports_takeAll ..) fun d => .bind ?_ fun _ => .pure _
  unfold finish
  split
  · exact .pure _
  · exact .located (.fail (by simp [Fault.code, definitionConditions])) _ _

end Definitions

omit [Scalar α] in
theorem Program.reports_findFormat (tokens : List Token) :
    Reports (10 :: formatConditions) (findFormat tokens : Run α Format) := by
  unfold findFormat
  split
  · exact .fail (by decide)
  · simp only
    split
    · exact .pure _
    · rename_i fault hfault
      have hcode := (Format.faultsIn_ofCommands _ _).code_mem fault hfault
      exact .located (.fail (List.mem_cons_of_mem _ hcode))
        _ _

end Gerber
