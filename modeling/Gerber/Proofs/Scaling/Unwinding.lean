import Gerber.Extents
import Gerber.Grid
import Gerber.Inlining
import Gerber.Proofs.Grid
import Gerber.Proofs.Scaling.Apertures
import Gerber.Proofs.Scaling.Run

/-!
# Scaling of unwinding

Moving the steps of a block to a flash, copying runs over a grid and taking the bounding box commute
with multiplying all lengths.
-/

namespace Gerber

variable {α : Type} [Scalar α] {k : α}

namespace Inlining

private theorem flashed?_scale (apertures : Apertures α) (step : Step α) :
    flashed? (apertures.scale k) (step.scale k) =
      (flashed? apertures step).map (·.scale k) := by
  unfold flashed?
  rw [Step.scale_action, Step.scale_aperture]
  split
  · exact Apertures.block?_scale apertures _
  · rfl

private theorem placed_scale (hk : Exact k) (flash : Step α) (prev : Coord α)
    (steps : List (Step α)) : (placed flash prev steps).map (·.scale k) =
      placed (flash.scale k) (prev.scale k) (steps.map (·.scale k)) := by
  induction steps generalizing prev with
  | nil => rfl
  | cons inner rest ih =>
    refine List.cons_eq_cons.mpr ⟨?_, ?_⟩
    · simp only [Step.scale, Coord.scale_translate hk, Vec.scale_add hk, Coord.place_scale]
    · rw [ih, Coord.scale_translate hk]
      rfl

private theorem substitute_scale (hk : Exact k) (flash : Step α) (block : BlockAperture α) :
    (substitute flash block).map (·.scale k) = substitute (flash.scale k) (block.scale k) := by
  unfold substitute
  rw [placed_scale hk]
  simp only [BlockAperture.scale, ← List.map_tail, List.filter_map]
  rfl

theorem pass_scale (hk : Exact k) (apertures : Apertures α) (done : List (Step α)) (count : Nat)
    (steps : List (Step α)) :
    Run.Scaled k (Prod.map (·.map (·.scale k)) id) (pass apertures done count steps)
      (pass (apertures.scale k) (done.map (·.scale k)) count (steps.map (·.scale k))) := by
  induction steps generalizing done count with
  | nil => exact .pure _ _
  | cons step rest ih =>
    rw [List.map_cons, pass, pass, flashed?_scale]
    cases flashed? apertures step with
    | none => exact ih (step :: done) count
    | some block =>
      have hrest := ih ((substitute step block).reverse ++ done) (count + 1)
      rw [List.map_append, List.map_reverse, substitute_scale hk] at hrest
      have hlength : (substitute (step.scale k) (block.scale k)).length =
          (substitute step block).length := by
        rw [← substitute_scale hk, List.length_map]
      simp only [Option.map_some, hlength, Step.scale_stepRepeat]
      cases step.stepRepeat with
      | none => exact hrest
      | some id => exact .bind (.adjustRepeat id _) fun _ => hrest

/-- By induction on the passes that are left. -/
theorem passes_scale (hk : Exact k) (apertures : Apertures α) (limit left : Nat)
    (steps : List (Step α)) :
    Run.Scaled k (·.map (·.scale k)) (passes apertures limit left steps)
      (passes (apertures.scale k) limit left (steps.map (·.scale k))) := by
  induction left generalizing steps with
  | zero =>
    rw [passes, passes]
    refine .bind (pass_scale hk apertures [] 0 steps) fun (done, count) => .ite ?_ ?_
    · simp only [← List.map_reverse]
      exact .pure _ _
    · exact .bind (.note _ _) fun _ => .fail _ _
  | succ left ih =>
    rw [passes, passes]
    refine .bind (pass_scale hk apertures [] 0 steps) fun (done, count) => .ite ?_ ?_
    · simp only [← List.map_reverse]
      exact .pure _ _
    · simp only [← List.map_reverse]
      exact .bind (.note _ _) fun _ => ih done.reverse

end Inlining

namespace Grid

private theorem copy_scale (hk : Exact k) (offset : Vec α) (prev : Coord α) (run : List (Step α)) :
    (copy offset prev run).map (·.scale k) =
      copy (offset.scale k) (prev.scale k) (run.map (·.scale k)) := by
  induction run generalizing prev with
  | nil => rfl
  | cons step rest ih =>
    refine List.cons_eq_cons.mpr ⟨?_, ?_⟩
    · simp only [Step.scale, Coord.scale_translate hk]
    · rw [ih, Coord.scale_translate hk]
      rfl

private theorem copies_scale (hk : Exact k) (block : StepRepeat α) (run : List (Step α)) :
    (copies block run).map (·.scale k) = copies (block.scale k) (run.map (·.scale k)) := by
  simp only [copies, List.map_flatMap, StepRepeat.offsets_scale hk, List.flatMap_map,
    copy_scale hk, Coord.scale_zero hk]

private theorem run_scale (id : Nat) (block : StepRepeat α) (steps : List (Step α)) :
    run id (block.scale k) (steps.map (·.scale k)) =
      (run id block steps).map (·.map (·.scale k)) := by
  have hbound : ((steps.take block.steps).map (·.scale k)).any (fun s => s.stepRepeat != some id) =
      (steps.take block.steps).any fun s => s.stepRepeat != some id := by
    rw [List.any_map]
    rfl
  unfold run
  simp only [StepRepeat.scale_steps, List.length_map, ← List.map_take, hbound, List.isEmpty_map]
  split_ifs <;> rfl

/-- By the recursion of the expansion, a run at a time. -/
theorem expand_scale (hk : Exact k) (repeats : StepRepeats α) (steps : List (Step α)) :
    expand (repeats.scale k) (steps.map (·.scale k)) =
      (expand repeats steps).map (·.map (·.scale k)) := by
  fun_induction expand repeats steps with
  | case1 => simp [expand]
  | case2 step rest hrepeat ih =>
    rw [List.map_cons, expand_cons_none ((step.scale_stepRepeat).trans hrepeat), ih, Except.map_map,
      Except.map_map]
    rfl
  | case3 step rest id hrepeat hget =>
    have hget' : (repeats.scale k).get? id = none := by simp [StepRepeats.get?_scale, hget]
    rw [List.map_cons, expand]
    simp only [Step.scale_stepRepeat, hrepeat, hget', Except.map_error]
  | case4 step rest id hrepeat block hget fault hrun =>
    have hget' : (repeats.scale k).get? id = some (block.scale k) := by
      simp [StepRepeats.get?_scale, hget]
    have hrun' := run_scale (k := k) id block (step :: rest)
    rw [hrun, List.map_cons] at hrun'
    rw [List.map_cons, expand_cons_some ((step.scale_stepRepeat).trans hrepeat) hget', hrun']
    rfl
  | case5 step rest id hrepeat block hget taken hrun ih =>
    have hget' : (repeats.scale k).get? id = some (block.scale k) := by
      simp [StepRepeats.get?_scale, hget]
    have hrun' := run_scale (k := k) id block (step :: rest)
    rw [hrun, List.map_cons] at hrun'
    rw [List.map_drop, List.map_cons] at ih
    rw [List.map_cons, expand_cons_some ((step.scale_stepRepeat).trans hrepeat) hget', hrun']
    simp only [Except.map_ok, StepRepeat.scale_steps, ih, Except.map_map, List.map_append,
      copies_scale hk]

theorem renumber_scale (steps : List (Step α)) :
    renumber (steps.map (·.scale k)) = (renumber steps).map (·.scale k) := by
  refine List.ext_getElem (by simp [renumber]) fun number _ _ => ?_
  simp only [renumber, List.getElem_mapIdx, List.getElem_map]
  rfl

end Grid

def Span.scale (span : Span α) (k : α) : Span α := ⟨span.lo * k, span.hi * k⟩

private theorem Span.reach_scale (hk : Exact k) (span : Option (Span α)) (value : α) :
    reach (span.map (·.scale k)) (value * k) = (reach span value).map (·.scale k) := by
  unfold reach
  rw [hk.isAbsent_mul]
  split
  · rfl
  · cases span with
    | none => rfl
    | some span =>
      simp only [Option.map_some, scale, hk.lt_mul]
      split_ifs <;> rfl

namespace Extents

def scale (e : Extents α) (k : α) : Extents α := ⟨e.x.map (·.scale k), e.y.map (·.scale k)⟩

private theorem cover_scale (hk : Exact k) (e : Extents α) (v : Vec α) :
    (e.cover v).scale k = (e.scale k).cover (v.scale k) := by
  simp only [cover, scale, Vec.scale, Span.reach_scale hk]

private theorem visit_scale (hk : Exact k) (e : Extents α) (s : Step α) :
    (e.visit s).scale k = (e.scale k).visit (s.scale k) := by
  unfold visit
  rw [Step.scale_action]
  split <;> simp only [cover_scale hk, ← Coord.place_scale] <;> rfl

theorem ofSteps_scale (hk : Exact k) (steps : List (Step α)) :
    ofSteps (steps.map (·.scale k)) = (ofSteps steps).scale k := by
  have hvisits (e : Extents α) :
      (steps.map (·.scale k)).foldl visit (e.scale k) = (steps.foldl visit e).scale k := by
    induction steps generalizing e with
    | nil => rfl
    | cons s rest ih => rw [List.map_cons, List.foldl_cons, ← visit_scale hk, ih, List.foldl_cons]
  exact hvisits empty

end Extents

end Gerber
