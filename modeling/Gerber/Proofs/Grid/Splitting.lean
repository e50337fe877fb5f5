import Gerber.Proofs.Grid.Copies
import Gerber.Scalar.Float
import Mathlib.Algebra.GroupWithZero.Nat

/-!
# Expansion by splitting

A list of steps can be expanded if and only if it splits into unbound steps and whole runs of known
blocks.  The split tells what comes out: an unbound step stays as it is, and a run is written out
at every place of its grid, row by row.
-/

namespace Gerber

variable {α : Type} [Scalar α]

private theorem StepRepeat.offsets_eq_rows (block : StepRepeat α) :
    block.offsets = (List.range block.repeatY).flatMap fun row =>
      (List.range block.repeatX).map fun column => block.offset column row := by
  unfold StepRepeat.offsets StepRepeat.repetitions
  generalize block.repeatY = rows
  induction rows with
  | zero => simp
  | succ rows ih =>
    have hrow : (List.range block.repeatX).map
        (block.offsetAt ∘ (block.repeatX * rows + ·)) =
        (List.range block.repeatX).map fun column => block.offset column rows := by
      apply List.map_congr_left
      intro column hcolumn
      have hlt : column < block.repeatX := List.mem_range.mp hcolumn
      have hpos : 0 < block.repeatX := Nat.zero_lt_of_lt hlt
      simp only [Function.comp, StepRepeat.offsetAt, Nat.mul_add_mod, Nat.mod_eq_of_lt hlt,
        Nat.mul_add_div hpos, Nat.div_eq_of_lt hlt, Nat.add_zero]
    rw [Nat.mul_succ, List.range_add, List.map_append, ih, List.map_map, hrow, List.range_succ,
      List.flatMap_append, List.flatMap_singleton]

namespace Grid

def isUnbound (step : Step α) : Bool := step.stepRepeat.isNone

/-- A coordinate to the right by `x` and up by `y`; the arc offsets stay. -/
def shifted (x y : α) (c : Coord α) : Coord α := { c with x := c.x + x, y := c.y + y }

/-- A run shifted by a distance.  Its first step starts from the origin, and each further one where
the shifted step before it ends. -/
def moved (x y : α) (run : List (Step α)) : List (Step α) :=
  List.zipWith (fun start step => { step with prev := start, coord := shifted x y step.coord })
    (⟨Scalar.zero, Scalar.zero, Scalar.zero, Scalar.zero, 0⟩ ::
      run.map fun step => shifted x y step.coord) run

namespace Piece

/-- What a piece gives way to: a run is moved to every column of every row of its grid, by as many
distances as there are columns and rows before it. -/
def onGrid : Piece α → List (Step α)
  | step kept => [kept]
  | run _ block taken =>
    (List.range block.repeatY).flatMap fun row =>
      (List.range block.repeatX).flatMap fun column =>
        moved (Scalar.ofNat column * block.stepX) (Scalar.ofNat row * block.stepY) taken

/-- The number of steps that the copies of a run have. -/
def copied : Piece α → Nat
  | step _ => 0
  | run _ block taken => taken.length * (block.repeatX * block.repeatY)

/-- A step that stays is unbound, and a run is as long as its block has counted steps. -/
def Fits (repeats : StepRepeats α) : Piece α → Prop
  | step kept => kept.stepRepeat = none
  | run id block taken => IsRun repeats id block taken

end Piece

/-- The pieces, from left to right, are the list, and each is as the blocks have it. -/
structure Splits (repeats : StepRepeats α) (pieces : List (Piece α)) (steps : List (Step α)) :
    Prop where
  flatMap_steps : pieces.flatMap Piece.steps = steps
  fits : ∀ piece ∈ pieces, piece.Fits repeats

variable {repeats : StepRepeats α} {pieces : List (Piece α)} {steps out : List (Step α)}

private theorem copy_eq_zipWith (offset : Vec α) (prev : Coord α) (run : List (Step α)) :
    copy offset prev run =
      List.zipWith
        (fun start step =>
          { step with prev := start, coord := shifted offset.x offset.y step.coord })
        (prev :: run.map fun step => shifted offset.x offset.y step.coord) run := by
  induction run generalizing prev with
  | nil => rfl
  | cons step rest ih =>
    rw [copy, ih, List.map_cons, List.zipWith_cons_cons]
    rfl

private theorem copy_eq_moved (offset : Vec α) (run : List (Step α)) :
    copy offset Coord.zero run = moved offset.x offset.y run :=
  copy_eq_zipWith offset Coord.zero run

private theorem Piece.expanded_eq_onGrid (piece : Piece α) : piece.expanded = piece.onGrid := by
  cases piece with
  | step kept => rfl
  | run id block taken =>
    simp only [Piece.expanded, Piece.onGrid, copies, StepRepeat.offsets_eq_rows,
      List.flatMap_assoc, List.flatMap_map, copy_eq_moved, StepRepeat.offset]

private theorem length_copies (block : StepRepeat α) (run : List (Step α)) :
    (copies block run).length = run.length * (block.repeatX * block.repeatY) := by
  simp [copies, List.length_flatMap, length_copy, StepRepeat.offsets, StepRepeat.repetitions,
    Function.comp_def, List.map_const', Nat.mul_comm]

omit [Scalar α] in
private theorem filter_unbound_of_bound {id : Nat} (h : ∀ step ∈ steps, isBound id step) :
    steps.filter isUnbound = [] := by
  apply List.filter_eq_nil_iff.mpr
  intro step hmem
  simp [isUnbound, isBound_iff.mp (h step hmem)]

private theorem Piece.Fits.filter_onGrid {piece : Piece α} (h : piece.Fits repeats) :
    piece.onGrid.filter isUnbound = piece.steps.filter isUnbound := by
  cases piece with
  | step kept => rfl
  | run id block taken =>
    have hcopies : ∀ step ∈ copies block taken, isBound id step := by
      intro step hmem
      obtain ⟨origin, horigin, _, _, rfl⟩ := mem_copies hmem
      exact h.bound origin horigin
    rw [← Piece.expanded_eq_onGrid]
    exact (filter_unbound_of_bound hcopies).trans (filter_unbound_of_bound h.bound).symm

private theorem Piece.Fits.length_onGrid {piece : Piece α} (h : piece.Fits repeats) :
    piece.onGrid.length = piece.steps.countP isUnbound + piece.copied := by
  rw [← Piece.expanded_eq_onGrid, List.countP_eq_length_filter]
  cases piece with
  | step kept =>
    have hkept : isUnbound kept := Option.isNone_iff_eq_none.mpr h
    simp [Piece.expanded, Piece.steps, Piece.copied, hkept]
  | run id block taken =>
    rw [Piece.steps, filter_unbound_of_bound h.bound]
    simp [Piece.expanded, Piece.copied, length_copies]

section

omit [Scalar α]

theorem Splits.nil : Splits repeats [] ([] : List (Step α)) :=
  ⟨rfl, List.forall_mem_nil _⟩

theorem Splits.cons {piece : Piece α} (hpiece : piece.Fits repeats)
    (h : Splits repeats pieces steps) : Splits repeats (piece :: pieces) (piece.steps ++ steps) :=
  ⟨by rw [List.flatMap_cons, h.flatMap_steps], List.forall_mem_cons.mpr ⟨hpiece, h.fits⟩⟩

end

private theorem expands_iff_splits :
    Expands repeats steps out ↔
      ∃ pieces, Splits repeats pieces steps ∧ out = pieces.flatMap Piece.onGrid := by
  constructor
  · intro h
    induction h with
    | nil => exact ⟨[], .nil, rfl⟩
    | @keep step rest out hnone _ ih =>
      obtain ⟨pieces, hsplits, rfl⟩ := ih
      exact ⟨.step step :: pieces, hsplits.cons hnone, rfl⟩
    | @copy id block run rest out hget hne hlength hbound _ ih =>
      obtain ⟨pieces, hsplits, rfl⟩ := ih
      have hrun : IsRun repeats id block run := ⟨hget, hne, hlength, hbound⟩
      refine ⟨.run id block run :: pieces, hsplits.cons hrun, ?_⟩
      rw [List.flatMap_cons, ← Piece.expanded_eq_onGrid, Piece.expanded]
  · rintro ⟨pieces, ⟨rfl, hfits⟩, rfl⟩
    induction pieces with
    | nil => exact .nil
    | cons piece pieces ih =>
      obtain ⟨hpiece, hpieces⟩ := List.forall_mem_cons.mp hfits
      rw [List.flatMap_cons, List.flatMap_cons, ← Piece.expanded_eq_onGrid]
      cases piece with
      | step kept => exact .keep hpiece (ih hpieces)
      | run id block taken =>
        exact .copy hpiece.get hpiece.ne_nil hpiece.length hpiece.bound (ih hpieces)

private theorem Splits.filter_onGrid (h : Splits repeats pieces steps) :
    (pieces.flatMap Piece.onGrid).filter isUnbound = steps.filter isUnbound := by
  obtain ⟨rfl, hfits⟩ := h
  induction pieces with
  | nil => rfl
  | cons piece pieces ih =>
    obtain ⟨hpiece, hpieces⟩ := List.forall_mem_cons.mp hfits
    rw [List.flatMap_cons, List.flatMap_cons, List.filter_append, List.filter_append,
      hpiece.filter_onGrid, ih hpieces]

private theorem Splits.length_onGrid (h : Splits repeats pieces steps) :
    (pieces.flatMap Piece.onGrid).length =
      steps.countP isUnbound + (pieces.map Piece.copied).sum := by
  obtain ⟨rfl, hfits⟩ := h
  induction pieces with
  | nil => rfl
  | cons piece pieces ih =>
    obtain ⟨hpiece, hpieces⟩ := List.forall_mem_cons.mp hfits
    rw [List.flatMap_cons, List.flatMap_cons, List.length_append, List.countP_append,
      List.map_cons, List.sum_cons, hpiece.length_onGrid, ih hpieces]
    omega

/-- A list is expanded if and only if it splits, and whichever way it splits, the result is every
piece on its grid: the unbound steps and all copies, with the unbound steps in their order.  A list
that does not split is refused. -/
theorem expand_follows_splits (repeats : StepRepeats α) (steps : List (Step α)) :
    (∀ out, expand repeats steps = .ok out ↔
      ∃ pieces, Splits repeats pieces steps ∧ out = pieces.flatMap Piece.onGrid ∧
        out.length = steps.countP isUnbound + (pieces.map Piece.copied).sum ∧
        out.filter isUnbound = steps.filter isUnbound) ∧
      ((∃ fault, expand repeats steps = .error fault) ↔
        ¬ ∃ pieces, Splits repeats pieces steps) := by
  have hok (out : List (Step α)) : expand repeats steps = .ok out ↔
      ∃ pieces, Splits repeats pieces steps ∧ out = pieces.flatMap Piece.onGrid := by
    rw [← expands_iff_splits]
    exact ⟨expands_of_expand, expand_of_expands⟩
  refine ⟨fun out => (hok out).trans ⟨?_, ?_⟩, ?_⟩
  · rintro ⟨pieces, hsplits, rfl⟩
    exact ⟨pieces, hsplits, rfl, hsplits.length_onGrid, hsplits.filter_onGrid⟩
  · rintro ⟨pieces, hsplits, hout, -⟩
    exact ⟨pieces, hsplits, hout⟩
  · constructor
    · rintro ⟨fault, herror⟩ ⟨pieces, hsplits⟩
      have hout := (hok _).mpr ⟨pieces, hsplits, rfl⟩
      rw [herror] at hout
      cases hout
    · intro hnone
      cases hresult : expand repeats steps with
      | error fault => exact ⟨fault, rfl⟩
      | ok out =>
        obtain ⟨pieces, hsplits, -⟩ := (hok out).mp hresult
        exact absurd ⟨pieces, hsplits⟩ hnone

/-- A block of two columns and three rows that has counted two steps. -/
def sixPlaces : StepRepeat Float :=
  { id := [], repeatX := 2, repeatY := 3, stepX := 5, stepY := 7, steps := 2, line := 1 }

/-- A step to a place, bound to a step-and-repeat block or to none. -/
def stepTo (id : Option Nat) (x y : Float) : Step Float :=
  { Step.root with coord := ⟨x, y, 0, 0, 0⟩, stepRepeat := id }

theorem expand_follows_splits_sixPlaces :
    ∃ out, expand ⟨[sixPlaces]⟩
        [stepTo none 9 9, stepTo (some 0) 1 2, stepTo (some 0) 3 4, stepTo none 8 8] = .ok out ∧
      out.map (fun step => (step.prev.x, step.prev.y, step.coord.x, step.coord.y)) =
        [(0, 0, 9, 9),
          (0, 0, 1, 2), (1, 2, 3, 4), (0, 0, 6, 2), (6, 2, 8, 4),
          (0, 0, 1, 9), (1, 9, 3, 11), (0, 0, 6, 9), (6, 9, 8, 11),
          (0, 0, 1, 16), (1, 16, 3, 18), (0, 0, 6, 16), (6, 16, 8, 18),
          (0, 0, 8, 8)] := by
  have hrun : IsRun ⟨[sixPlaces]⟩ 0 sixPlaces [stepTo (some 0) 1 2, stepTo (some 0) 3 4] :=
    ⟨rfl, List.cons_ne_nil _ _, rfl, by simp [isBound, stepTo]⟩
  have hnone (x y : Float) : (stepTo none x y).stepRepeat = none := rfl
  have hsplits : Splits ⟨[sixPlaces]⟩
      [.step (stepTo none 9 9), .run 0 sixPlaces [stepTo (some 0) 1 2, stepTo (some 0) 3 4],
        .step (stepTo none 8 8)]
      [stepTo none 9 9, stepTo (some 0) 1 2, stepTo (some 0) 3 4, stepTo none 8 8] :=
    ⟨rfl, by simp [Piece.Fits, hnone, hrun]⟩
  exact ⟨_, ((expand_follows_splits _ _).1 _).mpr
    ⟨_, hsplits, rfl, hsplits.length_onGrid, hsplits.filter_onGrid⟩, by decide +kernel⟩

end Grid

end Gerber
