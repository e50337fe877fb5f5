import Gerber.Definitions
import Gerber.Proofs.Scaling.Stream
import Mathlib.Data.List.Forall2

/-!
# Scaling of definitions

The format and the units of a file are read in advance, and its other commands never look at them.
Two files that differ only there therefore define the same apertures, with their lengths multiplied,
and are left with the same main stream.
-/

namespace Gerber

variable {α : Type} [Scalar α]

/-- The same command, or two commands for the format or the units. -/
def Token.Alike (token token' : Token) : Prop :=
  token = token' ∨
    DefinitionKind.ofText? token.text = some .header ∧
      DefinitionKind.ofText? token'.text = some .header

namespace Definitions

/-- What has been taken, with the lengths of all apertures multiplied. -/
def scale (d : Definitions α) (k : α) : Definitions α :=
  { d with apertures := d.apertures.scale k }

variable {k : α}

@[simp] theorem scale_openBlocks (d : Definitions α) : (d.scale k).openBlocks = d.openBlocks := rfl

theorem pass_scale (d : Definitions α) (token : Token) :
    (d.scale k).pass token = (d.pass token).scale k := by
  unfold pass scale
  cases d.openBlocks <;> rfl

private theorem define_scale (d : Definitions α) (a : Aperture α) (line : Nat) :
    Run.Scaled k (·.scale k) (d.define a line) ((d.scale k).define (a.scale k) line) := by
  have hsome : ((d.scale k).apertures.get? (a.scale k).code).isSome =
      (d.apertures.get? a.code).isSome := by
    rw [show (d.scale k).apertures = d.apertures.scale k from rfl, Apertures.get?_scale,
      Option.isSome_map]
    rfl
  have hdone : Run.Scaled k (·.scale k)
      (pure { d with apertures := d.apertures.define a } : Run α (Definitions α))
      (pure { d.scale k with apertures := (d.apertures.scale k).define (a.scale k) }) := by
    rw [← Apertures.scale_define]
    exact .pure _ _
  unfold define
  simp only [hsome]
  exact .ite (.bind (.note _ _) fun _ => hdone) hdone

variable {format : Format} (hk : Exact (inch : α)) (h : format.units = .millimeters)

include hk h

private theorem closeBlock_inInches (tolerance : α) (d : Definitions α) :
    Run.Scaled inch (·.scale inch) (closeBlock format tolerance d)
      (closeBlock format.inInches tolerance (d.scale inch)) := by
  unfold closeBlock
  rw [scale_openBlocks]
  cases d.openBlocks with
  | nil => exact .fail _ _
  | cons block outer =>
    have hcompile := Stream.compile_inInches ⟨format, d.apertures, tolerance⟩ hk h
      block.body.reverse
    refine .bind hcompile fun compiled => .bind (.note _ _) fun _ => ?_
    exact define_scale { d with openBlocks := outer }
      ⟨block.code, .block ⟨block.startLine, block.body.reverse, compiled.steps⟩⟩ block.startLine

private theorem direct_inInches (tolerance : α) (d : Definitions α) (token : Token) :
    Run.Scaled inch (·.scale inch) (d.direct format tolerance token)
      ((d.scale inch).direct format.inInches tolerance token) := by
  refine .bind (.ofExcept_self _) fun directive => ?_
  cases directive with
  | opening code => exact .pure _ _
  | closing => exact closeBlock_inInches hk h tolerance d

private theorem take_inInches (tolerance : α) (d : Definitions α) (token : Token) :
    Run.Scaled inch (·.scale inch) (d.take format tolerance token)
      ((d.scale inch).take format.inInches tolerance token) := by
  unfold take
  rcases DefinitionKind.ofText? token.text with _ | kind
  · simp only [pass_scale]
    exact .pure _ _
  cases kind with
  | header => exact .pure _ _
  | apertureMacro => exact .bind (.ofExcept_self _) fun m => .pure _ _
  | aperture =>
    refine .bind (.ofExcept (Aperture.ofCommand_inInches hk h token.text d.macros)) fun a => ?_
    exact define_scale d a token.line
  | block => exact direct_inInches hk h tolerance d token

omit hk h in
private theorem located_take_of_header {token : Token}
    (hheader : DefinitionKind.ofText? token.text = some .header) (tolerance : α)
    (d : Definitions α) :
    Run.located token.line token.text (d.take format tolerance token) = pure d := by
  simp only [take, hheader]
  rfl

private theorem takeAll_inInches (tolerance : α) (d : Definitions α) {tokens tokens' : List Token}
    (halike : List.Forall₂ Token.Alike tokens tokens') :
    Run.Scaled inch (·.scale inch) (takeAll format tolerance d tokens)
      (takeAll format.inInches tolerance (d.scale inch) tokens') := by
  induction halike generalizing d with
  | nil => exact .pure _ _
  | cons htoken _ ih =>
    rcases htoken with rfl | ⟨hheader, hheader'⟩
    · exact .bind (.located (take_inInches hk h tolerance d _) _ _) ih
    · rw [takeAll, takeAll, located_take_of_header hheader, located_take_of_header hheader',
        pure_bind, pure_bind]
      exact ih d

/-- The definitions are the same, but for the lengths of the apertures. -/
theorem ofTokens_inInches (tolerance : α) {tokens tokens' : List Token}
    (halike : List.Forall₂ Token.Alike tokens tokens') :
    Run.Scaled inch (·.scale inch) (ofTokens format tolerance tokens)
      (ofTokens format.inInches tolerance tokens') := by
  refine .bind (takeAll_inInches hk h tolerance empty halike) fun d => ?_
  refine .bind (f := id) ?_ fun _ => .pure _ d
  unfold finish
  rw [scale_openBlocks]
  cases d.openBlocks with
  | nil => exact .pure _ _
  | cons block outer => exact .located (.fail _ _) _ _

end Definitions

end Gerber
