import Gerber.Proofs.Definitions.Order
import Gerber.Proofs.Program.Conditions
import Gerber.Proofs.Program.Unwinding

/-!
# Files whose blocks settle

A file that defines no code twice cannot run into the limit on inlining passes if there are as many
passes as blocks.
-/

namespace Gerber.Program

open Inlining Definitions

variable {α : Type} [Scalar α]

def preparingConditions : List Nat := (10 :: formatConditions) ++ definitionConditions ++ [90]

private theorem fails_ofTokens {options : Options α} {tokens : List Token} {s t : Session α}
    {e : Error} (hs : s.stepRepeats.blocks = []) (h : (ofTokens options tokens).Fails s e t) :
    e.code ∈ preparingConditions ∨ ∃ format definitions compiled u,
      Prepared format options.tolerance tokens definitions compiled u ∧
        (unwind definitions.apertures options.maxPasses compiled.steps).Fails u e t := by
  have hearly {β : Type} {codes : List Nat} {run : Run α β} {s t : Session α}
      (hreports : run.Reports codes) (hsub : codes ⊆ preparingConditions)
      (hfails : run.Fails s e t) :
      e.code ∈ preparingConditions :=
    hsub (hreports.code_mem s e t hfails)
  cases failsAt_of_ofTokens hs h with
  | format hformat => exact .inl (hearly (reports_findFormat _) (by decide) hformat)
  | definitions hdefinitions =>
    exact .inl (hearly (reports_ofTokens _ _ _) (by decide) hdefinitions)
  | stream _ hcompile => exact .inl (hearly (Stream.reports_compile _ _) (by decide) hcompile)
  | missingStop he =>
    subst he
    exact .inl (by decide)
  | unwinding hprepared hunwind => exact .inr ⟨_, _, _, _, hprepared, hunwind⟩

private theorem fails_of_ofBytes {options : Options α} {bytes : List UInt8} {e : Error}
    {notices : List Notice} (h : ofBytes options bytes = (.error e, notices)) :
    ∃ t, (ofTokens options (Token.ofBytes bytes)).Fails .initial e t := by
  have hresult : ((ofTokens options (Token.ofBytes bytes)).outcome .initial).1 = .error e :=
    congrArg Prod.fst h
  exact ⟨_, Prod.ext hresult rfl⟩

private theorem exists_ordered_blocks {format : Format} {tolerance : α} {tokens : List Token}
    {d : Definitions α} {s t : Session α}
    (h : (Definitions.ofTokens format tolerance tokens).Yields s d t)
    (hcodes : (definedCodes tokens).Nodup) :
    ∃ blocks, Bracketed tokens d.stream.reverse blocks ∧
      blocks.length = openings tokens ∧
      Ordered d.apertures (blocks.map ClosedBlock.code) ∧
      (∀ code block, d.apertures.block? code = some block →
        ∀ step ∈ block.steps, step.aperture ≠ some code) ∧
      (∀ code, ¬ Relation.TransGen (References d.apertures) code code) ∧
      ∀ steps, DepthAtMost d.apertures blocks.length steps := by
  obtain ⟨blocks, hbracketed, hordered, hforeign⟩ := ordered_of_ofTokens h hcodes
  refine ⟨blocks, hbracketed, hbracketed.length_blocks, hordered, hforeign, hordered.acyclic, ?_⟩
  intro steps
  rw [← List.length_map ClosedBlock.code]
  exact hordered.depthAtMost steps

private theorem Prepared.fault_ne_unwindLimit {format : Format} {tolerance : α}
    {tokens : List Token}
    {definitions : Definitions α} {compiled : Compiled α} {s t : Session α} {limit : Nat}
    {e : Error} (h : Prepared format tolerance tokens definitions compiled s)
    (hdepth : DepthAtMost definitions.apertures limit compiled.steps)
    (hunwind : (unwind definitions.apertures limit compiled.steps).Fails s e t) (n : Nat) :
    e.fault ≠ .unwindLimit n := by
  intro hlimit
  rcases h.unwind_outcome limit with
    ⟨-, fault, u, hends⟩ | ⟨-, hdeep, -⟩ | ⟨-, -, out, u, hends⟩
  · obtain ⟨rfl, -⟩ := hends.unique hunwind
    cases hlimit
  · exact hdeep hdepth
  · exact hends.not_fails hunwind

/-- Where no code is defined twice, each block refers only to blocks that are closed before it, and
its own code cannot be selected in it.  So no block refers to itself, directly or not, flashes are
nested at most as deep as there are blocks, and as many passes are enough. -/
theorem settles_of_distinct_codes {options : Options α} {bytes : List UInt8}
    (hcodes : (definedCodes (Token.ofBytes bytes)).Nodup)
    (hpasses : openings (Token.ofBytes bytes) ≤ options.maxPasses) :
    (∀ format d s t,
      (Definitions.ofTokens format options.tolerance (Token.ofBytes bytes)).Yields s d t →
        ∃ blocks, Bracketed (Token.ofBytes bytes) d.stream.reverse blocks ∧
          blocks.length = openings (Token.ofBytes bytes) ∧
          Ordered d.apertures (blocks.map ClosedBlock.code) ∧
          (∀ code block, d.apertures.block? code = some block →
            ∀ step ∈ block.steps, step.aperture ≠ some code) ∧
          (∀ code, ¬ Relation.TransGen (References d.apertures) code code) ∧
          ∀ steps, DepthAtMost d.apertures blocks.length steps) ∧
    ∀ e notices, ofBytes options bytes = (.error e, notices) → ∀ n, e.fault ≠ .unwindLimit n := by
  refine ⟨fun format d s t h => exists_ordered_blocks h hcodes, ?_⟩
  intro e notices hbytes n hlimit
  obtain ⟨last, hfails⟩ := fails_of_ofBytes hbytes
  have hcode : e.code = 80 := by rw [Error.code, hlimit, Fault.code]
  rcases fails_ofTokens rfl hfails with hearly | ⟨format, d, compiled, u, hprepared, hunwind⟩
  · rw [hcode] at hearly
    exact absurd hearly (by decide)
  · have hdepth : DepthAtMost d.apertures options.maxPasses compiled.steps := by
      obtain ⟨r, t, _, _, -, hdefinitions, -⟩ := hprepared
      obtain ⟨blocks, -, hlength, -, -, -, hdepth⟩ := exists_ordered_blocks hdefinitions hcodes
      exact (hdepth compiled.steps).mono (hlength.trans_le hpasses)
    exact hprepared.fault_ne_unwindLimit hdepth hunwind n hlimit

/-- Two blocks that each flash the block or aperture defined before them; the inner one is closed
while the outer one is open. -/
def chainOfBlocks : List UInt8 :=
  ("%FSLAX36Y36*%%MOMM*%%ADD10C,0.1*%%ABD21*%%ABD20*%D10*X0Y0D03*X1000000D03*%AB*%".toList ++
    "D20*X0Y0D03*%AB*%D21*X0Y0D03*X5000000D03*M02*".toList).map fun c => UInt8.ofNat c.toNat

def twoPasses : Options Float := { Options.standard with maxPasses := 2 }

theorem settles_of_distinct_codes_chainOfBlocks :
    definedCodes (Token.ofBytes chainOfBlocks) = [10, 21, 20] ∧
      openings (Token.ofBytes chainOfBlocks) = 2 ∧
      ∀ e notices, ofBytes twoPasses chainOfBlocks = (.error e, notices) →
        ∀ n, e.fault ≠ .unwindLimit n := by
  obtain ⟨hcodes, hopenings⟩ : definedCodes (Token.ofBytes chainOfBlocks) = [10, 21, 20] ∧
      openings (Token.ofBytes chainOfBlocks) = 2 := by
    unfold chainOfBlocks
    repeat rw [String.toList_ofList]
    decide +kernel
  refine ⟨hcodes, hopenings, ?_⟩
  refine (settles_of_distinct_codes ?_ ?_).2
  · rw [hcodes]
    decide
  · exact hopenings.le

end Gerber.Program
