import Gerber.Program
import Gerber.Proofs.Scaling.Definitions
import Gerber.Proofs.Scaling.Rational
import Gerber.Proofs.Scaling.Unwinding

/-!
# Files in inches

A file whose unit command is changed from millimetres to inches is compiled into the same program
with all its lengths multiplied, if lengths are computed exactly.  It fails if and where it failed
before.
-/

namespace Gerber

/-- Two files that differ in their units only: the first unit command selects millimetres in the
one and inches in the other. -/
inductive Converted : List Token → List Token → Prop
  | units {line : Nat} {rest : List Token} :
      Converted (⟨"%MOMM*%".toList, line⟩ :: rest) (⟨"%MOIN*%".toList, line⟩ :: rest)
  | command {token : Token} {rest rest' : List Token} :
      token.text.startsWith "%MO".toList = false → Converted rest rest' →
        Converted (token :: rest) (token :: rest')

private theorem Units.ofCommand_millimeters : ofCommand "%MOMM*%".toList = .ok .millimeters :=
    if_pos rfl

private theorem Units.ofCommand_inches : ofCommand "%MOIN*%".toList = .ok .inches := by
  rw [ofCommand, if_neg (by decide), if_pos rfl]

namespace Format

private theorem ofAxes_inches (source axes : Text) :
    ofAxes .inches source axes = (ofAxes .millimeters source axes).map inInches := by
  unfold ofAxes
  simp only
  split
  · rfl
  · split_ifs <;> rfl

private theorem ofHeader_inches (source : Text) :
    ofHeader .inches source = (ofHeader .millimeters source).map inInches := by
  unfold ofHeader
  split
  · exact ofAxes_inches source _
  all_goals rfl

private theorem ofCommands_millimeters (fs : Text) :
    ofCommands fs "%MOMM*%".toList = ofHeader .millimeters fs := by
  rw [ofCommands, Units.ofCommand_millimeters]
  rfl

private theorem ofCommands_inches (fs : Text) :
    ofCommands fs "%MOIN*%".toList = (ofHeader .millimeters fs).map inInches := by
  rw [ofCommands, Units.ofCommand_inches, ← ofHeader_inches]
  rfl

private theorem units_of_ofHeader {units : Units} {source : Text} {format : Format}
    (h : ofHeader units source = .ok format) : format.units = units := by
  unfold ofHeader ofAxes at h
  simp only at h
  split at h
  · split at h
    · cases h
    · split_ifs at h
      cases h
      rfl
  all_goals cases h

private theorem formatCulprit_of_ofHeader {units : Units} {source : Text} {fault : Fault}
    (h : ofHeader units source = .error fault) (fs : Token) (mo : Option Token) :
    Program.formatCulprit fs mo fault = fs := by
  unfold ofHeader ofAxes at h
  simp only at h
  split at h
  · split at h
    · cases h
      rfl
    · split_ifs at h <;> cases h <;> rfl
  all_goals
    cases h
    rfl

end Format

namespace Converted

private theorem cons_iff {token token' : Token} {rest rest' : List Token} :
    Converted (token :: rest) (token' :: rest') ↔
      (token.text = "%MOMM*%".toList ∧ token'.text = "%MOIN*%".toList ∧ token'.line = token.line ∧
        rest' = rest) ∨
      (token.text.startsWith "%MO".toList = false ∧ token' = token ∧ Converted rest rest') := by
  constructor
  · intro h
    cases h with
    | units => exact .inl ⟨rfl, rfl, rfl, rfl⟩
    | command hunits h => exact .inr ⟨hunits, rfl, h⟩
  · rintro (⟨hmm, hin, hline, rfl⟩ | ⟨hunits, rfl, h⟩)
    · cases token
      cases token'
      cases hmm
      cases hin
      cases hline
      exact .units
    · exact .command hunits h

instance decidable : ∀ tokens tokens', Decidable (Converted tokens tokens')
  | [], _ => isFalse nofun
  | _ :: _, [] => isFalse nofun
  | _ :: rest, _ :: rest' =>
    have := decidable rest rest'
    decidable_of_iff _ cons_iff.symm

variable {tokens tokens' : List Token}

private theorem alike (h : Converted tokens tokens') : List.Forall₂ Token.Alike tokens tokens' := by
  induction h with
  | units =>
    have hmm : DefinitionKind.ofText? "%MOMM*%".toList = some .header := by decide
    have hin : DefinitionKind.ofText? "%MOIN*%".toList = some .header := by decide
    exact .cons (.inr ⟨hmm, hin⟩) (List.forall₂_same.mpr fun _ _ => .inl rfl)
  | command _ _ ih => exact .cons (.inl rfl) ih

private theorem firstWith?_format (h : Converted tokens tokens') :
    Program.firstWith? "%FS".toList tokens' = Program.firstWith? "%FS".toList tokens := by
  unfold Program.firstWith?
  induction h with
  | units =>
    have hmm : Text.startsWith "%MOMM*%".toList "%FS".toList = false := by decide
    have hin : Text.startsWith "%MOIN*%".toList "%FS".toList = false := by decide
    simp only [List.find?_cons, hmm, hin]
  | command _ _ ih => simp only [List.find?_cons, ih]

private theorem firstWith?_units (h : Converted tokens tokens') :
    ∃ line, Program.firstWith? "%MO".toList tokens = some ⟨"%MOMM*%".toList, line⟩ ∧
      Program.firstWith? "%MO".toList tokens' = some ⟨"%MOIN*%".toList, line⟩ := by
  unfold Program.firstWith?
  induction h with
  | units =>
    have hmm : Text.startsWith "%MOMM*%".toList "%MO".toList = true := by decide
    have hin : Text.startsWith "%MOIN*%".toList "%MO".toList = true := by decide
    exact ⟨_, by rw [List.find?_cons, hmm], by rw [List.find?_cons, hin]⟩
  | command hunits _ ih =>
    obtain ⟨line, hfind, hfind'⟩ := ih
    exact ⟨line, by rw [List.find?_cons, hunits, hfind], by rw [List.find?_cons, hunits, hfind']⟩

end Converted

namespace Program

variable {α : Type} [Scalar α] {tokens tokens' : List Token}

private theorem findFormat_inInches (h : Converted tokens tokens') (k : α) :
    Run.Scaled k Format.inInches (findFormat tokens) (findFormat tokens') := by
  unfold findFormat
  rw [h.firstWith?_format]
  cases firstWith? "%FS".toList tokens with
  | none => exact .fail _ _
  | some fs =>
    obtain ⟨line, hmo, hmo'⟩ := h.firstWith?_units
    simp only [hmo, hmo', Option.map_some, Option.getD_some, Format.ofCommands_millimeters,
      Format.ofCommands_inches]
    cases hheader : Format.ofHeader .millimeters fs.text with
    | error fault =>
      simp only [Except.map_error, Format.formatCulprit_of_ofHeader hheader]
      exact .located (.fail _ _) _ _
    | ok format => exact .pure _ _

omit [Scalar α] in
private theorem units_of_findFormat (h : Converted tokens tokens') {format : Format}
    {s t : Session α}
    (hyields : (findFormat tokens).Yields s format t) : format.units = .millimeters := by
  unfold findFormat at hyields
  split at hyields
  · exact absurd hyields Run.yields_fail
  · rename_i fs _
    obtain ⟨line, hmo, -⟩ := h.firstWith?_units
    simp only [hmo, Option.map_some, Option.getD_some, Format.ofCommands_millimeters] at hyields
    split at hyields
    · obtain ⟨rfl, -⟩ := Run.yields_pure.mp hyields
      exact Format.units_of_ofHeader ‹_›
    · exact absurd (Run.yields_located.mp hyields) Run.yields_fail

/-- The program of a file that is in inches: the format says so, and all lengths are multiplied by
the length of an inch. -/
def inInches (p : Program α) : Program α where
  format := p.format.inInches
  macros := p.macros
  apertures := p.apertures.scale inch
  regions := p.regions.map (·.scale inch)
  stepRepeats := p.stepRepeats.map (·.scale inch)
  extents := p.extents.scale inch
  stopped := p.stopped
  unwound := p.unwound.map (·.scale inch)

private theorem unwind_scale {k : α} (hk : Exact k) (apertures : Apertures α) (limit : Nat)
    (steps : List (Step α)) :
    Run.Scaled k (·.map (·.scale k)) (unwind apertures limit steps)
      (unwind (apertures.scale k) limit (steps.map (·.scale k))) := by
  refine .bind (Inlining.passes_scale hk apertures limit limit steps) fun inlined => ?_
  refine .get_bind fun s s' hs => ?_
  have hexpand : Grid.expand s'.stepRepeats (inlined.map (·.scale k)) =
      (Grid.expand s.stepRepeats inlined).map (·.map (·.scale k)) := by
    rw [hs.2, Grid.expand_scale hk]
  refine .bind (.ofExcept hexpand) fun expanded => ?_
  rw [Grid.renumber_scale]
  exact .pure _ _

private theorem assembled_inInches (hk : Exact (inch : α)) (limit : Nat) (format : Format)
    (definitions : Definitions α) (compiled : Compiled α) :
    Run.Scaled inch inInches
      (do
        let steps ← unwind definitions.apertures limit compiled.steps
        Run.note (.unwound (steps.length - 1))
        let s ← get
        pure
          { format
            macros := definitions.macros
            apertures := definitions.apertures
            regions := s.regions.regions
            stepRepeats := s.stepRepeats.blocks
            extents := Extents.ofSteps steps.tail
            stopped := compiled.stopped
            unwound := steps } : Run α (Program α))
      (do
        let steps ← unwind (definitions.scale inch).apertures limit (compiled.scale inch).steps
        Run.note (.unwound (steps.length - 1))
        let s ← get
        pure
          { format := format.inInches
            macros := (definitions.scale inch).macros
            apertures := (definitions.scale inch).apertures
            regions := s.regions.regions
            stepRepeats := s.stepRepeats.blocks
            extents := Extents.ofSteps steps.tail
            stopped := (compiled.scale inch).stopped
            unwound := steps }) := by
  refine .bind (unwind_scale hk definitions.apertures limit compiled.steps) fun steps => ?_
  refine .bind (.note _ _) fun _ => .get_bind fun s s' hs => ?_
  rw [hs.1, hs.2, ← List.map_tail, Extents.ofSteps_scale hk]
  exact .pure _ _

theorem ofTokens_inInches (hk : Exact (inch : α)) (options : Options α)
    (h : Converted tokens tokens') :
    Run.Scaled inch inInches (ofTokens options tokens) (ofTokens options tokens') := by
  unfold ofTokens
  refine .bind (.note _ _) fun _ => ?_
  refine .bind_of_yields (findFormat_inInches h inch) fun _ format _ hformat => ?_
  have hunits : format.units = .millimeters := units_of_findFormat h hformat
  refine .bind (.note _ _) fun _ => ?_
  refine .bind (Definitions.ofTokens_inInches hk hunits options.tolerance h.alike)
    fun definitions => ?_
  refine .bind (.note _ _) fun _ => ?_
  have hcompile := Stream.compile_inInches ⟨format, definitions.apertures, options.tolerance⟩ hk
    hunits definitions.stream.reverse
  refine .bind hcompile fun compiled => ?_
  have hend := assembled_inInches hk options.maxPasses format definitions compiled
  exact .ite (.ite (.bind (.fail id _) fun _ => .bind (.note _ _) fun _ => hend)
    (.bind (.note _ _) fun _ => hend)) hend

private theorem units_of_ofTokens {options : Options α} (h : Converted tokens tokens')
    {p : Program α} {s t : Session α} (hyields : (ofTokens options tokens).Yields s p t) :
    p.format.units = .millimeters := by
  simp only [ofTokens, Run.yields_bind] at hyields
  obtain ⟨_, _, -, format, _, hformat, hyields⟩ := hyields
  have hunits : format.units = .millimeters := units_of_findFormat h hformat
  obtain ⟨_, _, -, definitions, _, -, _, _, -, compiled, _, -, hyields⟩ := hyields
  split at hyields
  · split at hyields
    · simp [Run.yields_bind] at hyields
    · simp only [Run.yields_bind, Run.yields_pure] at hyields
      obtain ⟨_, _, -, _, _, -, _, _, -, _, _, -, rfl, -⟩ := hyields
      exact hunits
  · simp only [Run.yields_bind, Run.yields_pure] at hyields
    obtain ⟨_, _, -, _, _, -, _, _, -, rfl, -⟩ := hyields
    exact hunits

/-- A file in inches is compiled into the program of the same file in millimetres with all lengths
multiplied, and it fails as the file in millimetres fails. -/
theorem ofBytes_inInches (hk : Exact (inch : α)) (options : Options α) {bytes bytes' : List UInt8}
    (h : Converted (Token.ofBytes bytes) (Token.ofBytes bytes')) :
    (ofBytes options bytes').1 = (ofBytes options bytes).1.map inInches ∧
      ∀ p, (ofBytes options bytes).1 = .ok p → p.format.units = .millimeters := by
  have hscaled := ofTokens_inInches hk options h
  have hs : Session.Scaled inch (.initial : Session α) .initial := ⟨rfl, rfl⟩
  change ((ofTokens options (Token.ofBytes bytes')).outcome .initial).1 =
    ((ofTokens options (Token.ofBytes bytes)).outcome .initial).1.map inInches ∧
      ∀ p, ((ofTokens options (Token.ofBytes bytes)).outcome .initial).1 = .ok p →
        p.format.units = .millimeters
  rcases (ofTokens options (Token.ofBytes bytes)).yields_or_fails .initial with
    ⟨p, t, hyields⟩ | ⟨e, t, hfails⟩
  · obtain ⟨t', hyields', -⟩ := hscaled.yields hs hyields
    rw [show _ = _ from hyields, show _ = _ from hyields']
    refine ⟨rfl, fun q hq => ?_⟩
    cases hq
    exact units_of_ofTokens h hyields
  · obtain ⟨t', hfails', -⟩ := hscaled.fails hs hfails
    rw [show _ = _ from hfails, show _ = _ from hfails']
    exact ⟨rfl, nofun⟩

/-- A file in the given units: a circle with a hole, a macro, an aperture block that is flashed in a
step-and-repeat block, and a region. -/
def fileIn (units : String) : List UInt8 :=
  ("%FSLAX36Y36*%%MO".toList ++ units.toList ++ "*%%AMRING*1,1,$1,0,0*1,0,$1x2,0,0*%".toList ++
    "%ADD10C,1.5X0.5*%%ADD11RING,2*%%ABD20*%D10*X0Y0D03*D11*X1000000D03*%AB*%".toList ++
    "%SRX2Y1I5J0*%D20*X0Y500000D03*%SR*%G36*X0Y0D02*X1000000D01*X0D01*G37*M02*".toList).map
      fun c => UInt8.ofNat c.toNat

theorem ofBytes_inInches_fileIn :
    Exact (inch : ℚ) ∧ Converted (Token.ofBytes (fileIn "MM")) (Token.ofBytes (fileIn "IN")) ∧
      ∃ p : Program ℚ, (ofBytes .standard (fileIn "MM")).1 = .ok p ∧
        (ofBytes .standard (fileIn "IN")).1 = .ok p.inInches ∧ p.format.units = .millimeters ∧
        p.steps.map (fun s => (s.coord.x, s.coord.y)) =
          [(0, 1 / 2), (1, 1 / 2), (5, 1 / 2), (6, 1 / 2), (0, 0), (1, 0), (0, 0), (0, 0)] ∧
        p.inInches.steps.map (fun s => (s.coord.x, s.coord.y)) =
          [(0, 12.7), (25.4, 12.7), (127, 12.7), (152.4, 12.7), (0, 0), (25.4, 0), (0, 0),
            (0, 0)] := by
  obtain ⟨hconverted, hplaces⟩ :
      Converted (Token.ofBytes (fileIn "MM")) (Token.ofBytes (fileIn "IN")) ∧
      (ofBytes (Options.standard : Options ℚ) (fileIn "MM")).1.toOption.map
        (fun p => p.steps.map fun s => (s.coord.x, s.coord.y)) =
        some [(0, 1 / 2), (1, 1 / 2), (5, 1 / 2), (6, 1 / 2), (0, 0), (1, 0), (0, 0), (0, 0)] := by
    unfold fileIn
    -- a literal is the list of its characters, and its bytes need not be decoded
    repeat rw [String.toList_ofList]
    decide +kernel
  obtain ⟨hinches, hunits⟩ := ofBytes_inInches exact_inch_rat .standard hconverted
  refine ⟨exact_inch_rat, hconverted, ?_⟩
  rcases hresult : (ofBytes (Options.standard : Options ℚ) (fileIn "MM")).1 with e | p
  · rw [hresult] at hplaces
    cases hplaces
  · rw [hresult] at hinches hunits hplaces
    have hmultiplied : p.inInches.steps.map (fun s => (s.coord.x, s.coord.y)) =
        (p.steps.map fun s => (s.coord.x, s.coord.y)).map fun c => (c.1 * inch, c.2 * inch) := by
      simp [Program.steps, inInches, Function.comp_def, Step.scale, Coord.scale]
    replace hplaces : p.steps.map (fun s => (s.coord.x, s.coord.y)) = _ := Option.some.inj hplaces
    refine ⟨p, rfl, hinches, hunits p rfl, hplaces, ?_⟩
    rw [hmultiplied, hplaces]
    norm_num [inch_rat]

end Program

end Gerber
