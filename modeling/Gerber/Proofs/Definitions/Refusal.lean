import Gerber.Proofs.Definitions.Extraction
import Gerber.Proofs.Stream.Refusal

/-!
# Definitions that are refused

Taking a command fails if it is a definition that cannot be read, if it closes a block where none is
open, or if it closes a block one of whose commands is refused.  In the last case the error lies at
the command of the block, which the file has and which is no definition.
-/

namespace Gerber.Definitions

variable {α : Type} [Scalar α]

/-- Why a definition is refused on its own account. -/
inductive Refusal (format : Format) (d : Definitions α) (token : Token) : Fault → Prop
  | apertureMacro {why : MacroFault} :
      DefinitionKind.ofText? token.text = some .apertureMacro →
      (ApertureMacro.ofCommand token.text : Except MacroFault (ApertureMacro α)) = .error why →
        Refusal format d token (.apertureMacro why)
  | aperture {fault : Fault} :
      DefinitionKind.ofText? token.text = some .aperture →
      Aperture.ofCommand token.text format d.macros = .error fault → Refusal format d token fault
  | directive {why : BlockFault} :
      DefinitionKind.ofText? token.text = some .block →
      BlockDirective.ofCommand token.text = .error why → Refusal format d token (.apertureBlock why)
  | surplus :
      token.directive? = some .closing → d.openBlocks = [] →
        Refusal format d token (.apertureBlock .notOpen)

variable {format : Format} {tolerance : α} {d d' : Definitions α} {token : Token}
  {tokens : List Token} {s t : Session α} {e : Error}

def refusalConditions : List Nat := [33, 34, 35, 36, 37] ++ apertureConditions ++ [70]

theorem Refusal.code_mem {fault : Fault} (h : Refusal format d token fault) :
    fault.code ∈ refusalConditions := by
  cases h with
  | @apertureMacro why _ _ =>
    cases why <;> simp [Fault.code, MacroFault.code, refusalConditions]
  | aperture _ h => exact ((Aperture.faultsIn_ofCommand _ _ _).mono (by decide)).code_mem fault h
  | directive _ _ => simp [Fault.code, refusalConditions]
  | surplus _ _ => simp [Fault.code, refusalConditions]

omit [Scalar α] in
private theorem not_fails_define {a : Aperture α} {line : Nat} : ¬ (d.define a line).Fails s e t :=
  fun h => absurd ((reports_define d a line).code_mem s e t h) List.not_mem_nil

private theorem refusal_of_direct (hkind : DefinitionKind.ofText? token.text = some .block)
    (h : (d.direct format tolerance token).Fails s e t) :
    (∃ fault, e = { fault } ∧ Refusal format d token fault) ∨
      (token.directive? = some .closing ∧ ∃ frame outer, d.openBlocks = frame :: outer ∧
        (Stream.compile ⟨format, d.apertures, tolerance⟩ frame.body.reverse).Fails s e t) := by
  unfold direct at h
  simp only [Run.fails_bind, Run.fails_ofExcept, Run.yields_ofExcept, Except.mapError_eq_error,
    Except.mapError_eq_ok] at h
  rcases h with ⟨_, ⟨why, hread, rfl⟩, rfl, -⟩ | ⟨directive, _, ⟨hread, rfl⟩, h⟩
  · exact .inl ⟨_, rfl, .directive hkind hread⟩
  · rw [← Token.directive?_eq_some_iff] at hread
    cases directive with
    | opening code => exact absurd h Run.fails_pure
    | closing =>
      simp only [closeBlock] at h
      split at h
      · obtain ⟨rfl, -⟩ := Run.fails_fail.mp h
        exact .inl ⟨_, rfl, .surplus hread ‹_›⟩
      · rename_i frame outer hopen
        simp only [Run.fails_bind, Run.fails_note, not_fails_define, and_false, exists_false,
          or_false] at h
        exact .inr ⟨hread, frame, outer, hopen, h⟩

private theorem refusal_of_take (h : (d.take format tolerance token).Fails s e t) :
    (∃ fault, e = { fault } ∧ Refusal format d token fault) ∨
      (token.directive? = some .closing ∧ ∃ frame outer, d.openBlocks = frame :: outer ∧
        (Stream.compile ⟨format, d.apertures, tolerance⟩ frame.body.reverse).Fails s e t) := by
  unfold take at h
  split at h
  · exact absurd h Run.fails_pure
  · exact absurd h Run.fails_pure
  · simp only [Run.fails_bind, Run.fails_ofExcept, Except.mapError_eq_error, Run.fails_pure,
      and_false, exists_false, or_false] at h
    obtain ⟨_, ⟨why, hread, rfl⟩, rfl, -⟩ := h
    exact .inl ⟨_, rfl, .apertureMacro ‹_› hread⟩
  · simp only [Run.fails_bind, Run.fails_ofExcept, not_fails_define, and_false, exists_false,
      or_false] at h
    obtain ⟨fault, hread, rfl, -⟩ := h
    exact .inl ⟨fault, rfl, .aperture ‹_› hread⟩
  · exact refusal_of_direct ‹_› h

/-- A block that cannot be compiled cannot be closed. -/
theorem fails_take_of_compile {frame : OpenBlock} {outer : List OpenBlock}
    (hclosing : token.directive? = some .closing) (hopen : d.openBlocks = frame :: outer)
    (hcompile : (Stream.compile ⟨format, d.apertures, tolerance⟩ frame.body.reverse).Fails s e t) :
    (d.take format tolerance token).Fails s e t := by
  have hread := Token.directive?_eq_some_iff.mp hclosing
  rw [take, kind_of_directive? hclosing]
  refine Run.fails_bind.mpr (.inr ⟨.closing, s, ?_, ?_⟩)
  · exact Run.yields_ofExcept.mpr ⟨Except.mapError_eq_ok.mpr hread, rfl⟩
  · simp only [closeBlock, hopen]
    exact Run.fails_bind.mpr (.inl hcompile)

/-- Taking commands fails at one of them, once those before it are taken. -/
theorem fails_takeAll_iff :
    (takeAll format tolerance d tokens).Fails s e t ↔ ∃ before token after mid u,
      tokens = before ++ token :: after ∧ (takeAll format tolerance d before).Yields s mid u ∧
      (Run.located token.line token.text (mid.take format tolerance token)).Fails u e t := by
  constructor
  · intro h
    induction tokens generalizing d s with
    | nil => exact absurd h Run.fails_pure
    | cons token tokens ih =>
      rw [takeAll, Run.fails_bind] at h
      rcases h with hfails | ⟨mid, u, htake, hrest⟩
      · exact ⟨[], token, tokens, d, s, rfl, Run.yields_pure.mpr ⟨rfl, rfl⟩, hfails⟩
      · obtain ⟨before, later, after, reached, v, rfl, hreached, hfails⟩ := ih hrest
        refine ⟨token :: before, later, after, reached, v, rfl, ?_, hfails⟩
        exact yields_takeAll_cons.mpr ⟨mid, u, Run.yields_located.mp htake, hreached⟩
  · rintro ⟨before, token, after, mid, u, rfl, hbefore, hfails⟩
    exact fails_takeAll_append.mpr (.inr ⟨mid, u, hbefore, Run.fails_bind.mpr (.inl hfails)⟩)

omit [Scalar α] in
private theorem mem_of_bracketed {commands : List Token} {blocks : List ClosedBlock}
    (h : Bracketed tokens commands blocks) (hmem : token ∈ commands) :
    token ∈ tokens ∧ token.isDefinition = false := by
  have hall := h.perm.subset (List.mem_append_left _ hmem)
  rw [List.mem_filter, Bool.not_eq_true'] at hall
  exact hall

omit [Scalar α] in
private theorem mem_of_unfinished {frame : OpenBlock} {outer : List OpenBlock}
    {commands : List Token}
    {blocks : List ClosedBlock} (h : Unfinished tokens (frame :: outer) commands blocks) :
    (∃ opening ∈ tokens, opening.directive? = some (.opening frame.code) ∧
      opening.line = frame.startLine) ∧
    ∀ token ∈ frame.body, token ∈ tokens ∧ token.isDefinition = false := by
  cases h with
  | inside _ hopening hinner =>
    refine ⟨⟨_, by simp, hopening, rfl⟩, fun token hmem => ?_⟩
    obtain ⟨hin, hcommand⟩ := mem_of_bracketed hinner (List.mem_reverse.mp hmem)
    exact ⟨by simp [hin], hcommand⟩

/-- So it is for the block that is open innermost once commands have been taken. -/
theorem frame_of_takeAll {frame : OpenBlock} {outer : List OpenBlock}
    (h : (takeAll format tolerance empty tokens).Yields s d t)
    (hopen : d.openBlocks = frame :: outer) :
    (∃ opening ∈ tokens, opening.directive? = some (.opening frame.code) ∧
      opening.line = frame.startLine) ∧
    ∀ token ∈ frame.body, token ∈ tokens ∧ token.isDefinition = false := by
  obtain ⟨blocks, hread⟩ := unfinished_of_takeAll h
  rw [hopen] at hread
  exact mem_of_unfinished hread

/-- The main stream has only commands of the file. -/
theorem stream_of_ofTokens (h : (ofTokens format tolerance tokens).Yields s d t) :
    d.stream.reverse ⊆ tokens := by
  obtain ⟨hall, hopen⟩ := yields_ofTokens_iff.mp h
  obtain ⟨blocks, hread⟩ := unfinished_of_takeAll hall
  rw [hopen] at hread
  cases hread with
  | outside hbracketed => exact fun token hmem => (mem_of_bracketed hbracketed hmem).1

def takingConditions : List Nat := refusalConditions ++ Stream.refusalConditions

private theorem liesIn_of_takeAll (h : (takeAll format tolerance empty tokens).Fails s e t) :
    e.LiesIn tokens takingConditions := by
  obtain ⟨before, token, after, d, u, rfl, hbefore, hfails⟩ := fails_takeAll_iff.mp h
  obtain ⟨e', htake, rfl⟩ := Run.fails_located.mp hfails
  rcases refusal_of_take htake with ⟨fault, rfl, hrefusal⟩ | ⟨-, frame, outer, hopen, hcompile⟩
  · refine ⟨token, by simp, rfl, List.mem_append_left _ hrefusal.code_mem, ?_⟩
    rintro rfl
    exact absurd hrefusal.code_mem (by decide)
  · have hlies := Stream.liesIn_of_compile hcompile
    -- the place that the body gave the error stays
    have hplaced : e'.locate token.line token.text = e' := by
      obtain ⟨_, -, hplace, -⟩ := hlies
      rw [Error.locate, hplace]
    have hbody := (frame_of_takeAll hbefore hopen).2
    rw [hplaced]
    refine hlies.mono (fun command hmem => ?_) (List.subset_append_right _ _)
    exact List.mem_append_left _ (hbody command (List.mem_reverse.mp hmem)).1

/-- An open block at the end is reported at the command that opened it, which is written anew. -/
theorem liesIn_of_ofTokens (h : (ofTokens format tolerance tokens).Fails s e t) :
    e.LiesIn tokens takingConditions ∨
      ∃ opening ∈ tokens, ∃ code, opening.directive? = some (.opening code) ∧
        e = ⟨.unterminatedBlock code,
          some ⟨opening.line, "%ABD".toList ++ Text.ofNat code ++ "*%".toList⟩⟩ := by
  rcases (takeAll format tolerance empty tokens).yields_or_fails s with
    ⟨d, u, hall⟩ | ⟨e', u, hfails⟩
  · cases hopen : d.openBlocks with
    | nil => exact absurd h (yields_ofTokens_iff.mpr ⟨hall, hopen⟩).not_fails
    | cons frame outer =>
      obtain ⟨⟨opening, hmem, hopening, hline⟩, -⟩ := frame_of_takeAll hall hopen
      obtain ⟨rfl, -⟩ := (fails_ofTokens_of_open hall hopen).unique h
      exact .inr ⟨opening, hmem, frame.code, hopening, by rw [hline]⟩
  · obtain ⟨rfl, -⟩ := (fails_ofTokens_of_takeAll hfails).unique h
    exact .inl (liesIn_of_takeAll hfails)

end Gerber.Definitions
