import Gerber.Proofs.Macro.Lines
import Gerber.Scalar.Float

/-!
# Macros line by line

A macro keeps its assignments and its primitives in two lists.  Here a macro is run as it is
written, one line after the other, and it comes to the same figures.
-/

namespace Gerber

variable {α : Type}

namespace Bindings

private theorem get?_set_of_eq (b : Bindings α) {name name' : Text} (v : α)
    (h : bare name = bare name') : (b.set name v).get? name' = some v := by
  simp [set, get?, h]

private theorem get?_set_of_ne (b : Bindings α) {name name' : Text} (v : α)
    (h : bare name ≠ bare name') : (b.set name v).get? name' = b.get? name' := by
  simp [set, get?, List.lookup_cons, beq_false_of_ne h.symm]

private theorem ofNat_injective {m n : Nat} (h : Text.ofNat m = Text.ofNat n) : m = n := by
  have hvalue := congrArg (Nat.ofDigitChars 10 · 0) h
  simpa only [Text.ofNat, Nat.ofDigitChars_toDigits, Nat.reduceLT, Nat.le_refl] using hvalue

private theorem bare_ofNat (n : Nat) : bare (Text.ofNat n) = Text.ofNat n := by
  apply List.dropWhile_eq_self_iff.mpr
  intro hlength hdollar
  have hmem : (Text.ofNat n)[0] ∈ Nat.toDigits 10 n := List.getElem_mem hlength
  have hdigit := Nat.isDigit_of_mem_toDigits (by decide) (by decide) hmem
  rw [eq_of_beq hdollar] at hdigit
  cases hdigit

private theorem lookup_zipIdx (parameters : List α) (start k : Nat) :
    ((parameters.zipIdx start).map fun (value, k) => (Text.ofNat (k + 1), value)).lookup
      (Text.ofNat (start + k + 1)) = parameters[k]? := by
  induction parameters generalizing start k with
  | nil => rfl
  | cons value rest ih =>
    rw [List.zipIdx_cons, List.map_cons, List.lookup_cons]
    cases k with
    | zero => simp
    | succ k =>
      have hne : Text.ofNat (start + (k + 1) + 1) ≠ Text.ofNat (start + 1) := by
        intro h
        have := ofNat_injective h
        omega
      rw [beq_false_of_ne hne, List.getElem?_cons_succ, ← ih (start + 1) k]
      simp only [Nat.add_right_comm, Nat.add_assoc]

private theorem get?_ofParameters (parameters : List α) (k : Nat) :
    (ofParameters parameters).get? (Text.ofNat (k + 1)) = parameters[k]? := by
  rw [get?, bare_ofNat]
  simpa only [ofParameters, Nat.zero_add] using lookup_zipIdx parameters 0 k

end Bindings

namespace ApertureMacro

/-- A macro at work: its variables, and the figures that it has drawn. -/
structure Progress (α : Type) where
  bindings : Bindings α
  drawn : List (Figure α)

namespace Line

def primitive? : Line α → Option (MacroPrimitive α)
  | primitive p => some p
  | _ => none

/-- The variable that a line assigns, and its new value. -/
def assignment? : Line α → Option (Text × Modifier α)
  | assignment name value => some (name, value)
  | _ => none

/-- Whether a line gives a variable another value. -/
def assigns (name : Text) : Line α → Bool
  | assignment other _ => Bindings.bare other == Bindings.bare name
  | _ => false

variable [Scalar α]

/-- What a line does to a macro at work. -/
def run (scale : α) (state : Progress α) : Line α → Except Fault (Progress α)
  | comment _ => .ok state
  | assignment name value => do
    let v ← (value.eval state.bindings).mapError .expression
    pure { state with bindings := state.bindings.set name v }
  | primitive p => do
    let figure ← figure state.bindings scale p
    pure { state with drawn := state.drawn ++ [figure] }

end Line

/-- Runs lines one after the other for the parameters of an aperture; the first line that fails
ends the run. -/
def runLines [Scalar α] (scale : α) (parameters : List α) (lines : List (Line α)) :
    Except Fault (Progress α) :=
  lines.foldlM (Line.run scale) ⟨.ofParameters parameters, []⟩

def upToLastPrimitive : List (Line α) → List (Line α)
  | [] => []
  | line :: rest =>
    if (line :: rest).any (·.primitive?.isSome) then line :: upToLastPrimitive rest else []

/-- The assignments among lines, of which the first stands before the primitive at `index`. -/
def assignmentsFrom (index : Nat) : List (Line α) → List (Assignment α)
  | [] => []
  | .comment _ :: rest => assignmentsFrom index rest
  | .assignment name value :: rest => ⟨name, value, index⟩ :: assignmentsFrom index rest
  | .primitive _ :: rest => assignmentsFrom (index + 1) rest

def primitivesOf (lines : List (Line α)) : List (MacroPrimitive α) :=
  lines.filterMap Line.primitive?

private theorem foldl_add (lines : List (Line α)) (m : ApertureMacro α) :
    (lines.foldl add m).assignments =
        m.assignments ++ assignmentsFrom m.primitives.length lines ∧
      (lines.foldl add m).primitives = m.primitives ++ primitivesOf lines := by
  induction lines generalizing m with
  | nil => simp [assignmentsFrom, primitivesOf]
  | cons line rest ih =>
    rw [List.foldl_cons]
    obtain ⟨hassignments, hprimitives⟩ := ih (m.add line)
    rw [hassignments, hprimitives]
    cases line <;> simp [add, assignmentsFrom, primitivesOf, Line.primitive?, List.filterMap_cons]

private theorem le_before_assignmentsFrom {index : Nat} {lines : List (Line α)} {a : Assignment α}
    (h : a ∈ assignmentsFrom index lines) : index ≤ a.before := by
  induction lines generalizing index with
  | nil => cases h
  | cons line rest ih =>
    cases line with
    | comment text => exact ih h
    | assignment name value =>
      rcases List.mem_cons.mp h with rfl | h
      · exact Nat.le_refl _
      · exact ih h
    | primitive p => exact Nat.le_of_succ_le (ih h)

private theorem pairwise_assignmentsFrom (index : Nat) (lines : List (Line α)) :
    (assignmentsFrom index lines).Pairwise (·.before ≤ ·.before) := by
  induction lines generalizing index with
  | nil => exact .nil
  | cons line rest ih =>
    cases line with
    | comment text => exact ih index
    | assignment name value => exact .cons (fun a ha => le_before_assignmentsFrom ha) (ih index)
    | primitive p => exact ih (index + 1)

private theorem assignments_before (front : List (Line α)) (p : MacroPrimitive α)
    (back : List (Line α)) (index : Nat) :
    ((assignmentsFrom index (front ++ .primitive p :: back)).filter
        (·.before ≤ index + (primitivesOf front).length)).map (fun a => (a.name, a.value)) =
      front.filterMap Line.assignment? := by
  induction front generalizing index with
  | nil =>
    rw [List.nil_append, assignmentsFrom, List.filter_eq_nil_iff.mpr]
    · rfl
    · intro a ha hbefore
      have hindex : a.before ≤ index := of_decide_eq_true hbefore
      exact absurd (le_before_assignmentsFrom ha) (Nat.not_le.mpr (Nat.lt_succ_of_le hindex))
  | cons line rest ih =>
    cases line with
    | comment text => exact ih index
    | assignment name value =>
      rw [List.cons_append, assignmentsFrom, List.filter_cons_of_pos (by simp), List.map_cons]
      exact congrArg _ (ih index)
    | primitive q =>
      have hrest := ih (index + 1)
      rw [Nat.add_right_comm, Nat.add_assoc] at hrest
      exact hrest

private theorem upToLastPrimitive_eq_nil {lines : List (Line α)}
    (h : lines.any (·.primitive?.isSome) = false) : upToLastPrimitive lines = [] := by
  cases lines with
  | nil => rfl
  | cons line rest => simp only [upToLastPrimitive, h, Bool.false_eq_true, if_false]

private theorem primitivesOf_eq_nil {lines : List (Line α)}
    (h : lines.any (·.primitive?.isSome) = false) : primitivesOf lines = [] := by
  rw [primitivesOf, List.filterMap_eq_nil_iff]
  intro line hline
  simpa using List.any_eq_false.mp h line hline

private theorem exists_primitivesOf {lines : List (Line α)}
    (h : lines.any (·.primitive?.isSome) = true) :
    ∃ p rest, primitivesOf lines = p :: rest := by
  obtain ⟨line, hline, hsome⟩ := List.any_eq_true.mp h
  obtain ⟨p, hp⟩ := Option.isSome_iff_exists.mp hsome
  exact List.exists_cons_of_ne_nil
    (List.ne_nil_of_mem (List.mem_filterMap.mpr ⟨line, hline, hp⟩))

variable [Scalar α]

private theorem figuresFrom_assignment (scale : α) (index : Nat) (bindings : Bindings α)
    (name : Text) (value : Modifier α) (assignments : List (Assignment α)) (p : MacroPrimitive α)
    (rest : List (MacroPrimitive α)) :
    figuresFrom scale index bindings (⟨name, value, index⟩ :: assignments) (p :: rest) = (do
      let v ← (value.eval bindings).mapError .expression
      figuresFrom scale index (bindings.set name v) assignments (p :: rest)) := by
  simp only [figuresFrom, assign, Nat.le_refl, if_true]
  cases value.eval bindings <;> rfl

private theorem figuresFrom_primitive (scale : α) (index : Nat) (bindings : Bindings α)
    {assignments : List (Assignment α)} (h : ∀ a ∈ assignments, index + 1 ≤ a.before)
    (p : MacroPrimitive α) (rest : List (MacroPrimitive α)) :
    figuresFrom scale index bindings assignments (p :: rest) = (do
      let first ← figure bindings scale p
      let others ← figuresFrom scale (index + 1) bindings assignments rest
      pure (first :: others)) := by
  have hassign : assign index bindings assignments = .ok (bindings, assignments) := by
    cases assignments with
    | nil => rfl
    | cons a rest => simp [assign, Nat.not_le.mpr (h a List.mem_cons_self)]
  rw [figuresFrom, hassign]
  rfl

private theorem figuresFrom_eq_run (scale : α) (lines : List (Line α)) (index : Nat)
    (bindings : Bindings α) (drawn : List (Figure α)) :
    (figuresFrom scale index bindings (assignmentsFrom index lines) (primitivesOf lines)).map
        (drawn ++ ·) =
      ((upToLastPrimitive lines).foldlM (Line.run scale) ⟨bindings, drawn⟩).map (·.drawn) := by
  -- what is drawn of the lines at hand is added to what is drawn before
  induction lines generalizing index bindings drawn with
  | nil => simp [primitivesOf, figuresFrom, upToLastPrimitive, Except.map, pure, Except.pure]
  | cons line rest ih =>
    cases hany : (line :: rest).any (·.primitive?.isSome) with
    | false =>
      rw [primitivesOf_eq_nil hany, upToLastPrimitive_eq_nil hany]
      simp [figuresFrom, Except.map, pure, Except.pure]
    | true =>
      rw [upToLastPrimitive, hany, if_pos rfl, List.foldlM_cons]
      cases line with
      | comment text => exact ih index bindings drawn
      | assignment name value =>
        obtain ⟨p, others, hp⟩ : ∃ p others, primitivesOf rest = p :: others :=
          exists_primitivesOf hany
        change (figuresFrom scale index bindings
          (⟨name, value, index⟩ :: assignmentsFrom index rest) (primitivesOf rest)).map
            (drawn ++ ·) = _
        rw [hp, figuresFrom_assignment, ← hp, Line.run]
        cases value.eval bindings with
        | error e => rfl
        | ok v => exact ih index (bindings.set name v) drawn
      | primitive p =>
        change (figuresFrom scale index bindings (assignmentsFrom (index + 1) rest)
          (p :: primitivesOf rest)).map (drawn ++ ·) = _
        rw [figuresFrom_primitive scale index bindings (fun a ha => le_before_assignmentsFrom ha),
          Line.run]
        cases figure bindings scale p with
        | error e => rfl
        | ok f =>
          refine Eq.trans ?_ (ih (index + 1) bindings (drawn ++ [f]))
          cases figuresFrom scale (index + 1) bindings (assignmentsFrom (index + 1) rest)
              (primitivesOf rest) with
          | error e => rfl
          | ok others => simp [Except.map, bind, Except.bind, pure, Except.pure]

private theorem Line.get?_run {scale : α} {line : Line α} {state next : Progress α} {name : Text}
    (h : line.run scale state = .ok next) (hname : line.assigns name = false) :
    next.bindings.get? name = state.bindings.get? name := by
  cases line with
  | comment text =>
    cases h
    rfl
  | assignment other value =>
    obtain ⟨v, -, hnext⟩ := Except.bind_eq_ok.mp h
    cases hnext
    exact Bindings.get?_set_of_ne _ _ (ne_of_beq_false hname)
  | primitive p =>
    obtain ⟨f, -, hnext⟩ := Except.bind_eq_ok.mp h
    cases hnext
    rfl

private theorem get?_foldlM {scale : α} {lines : List (Line α)} {state next : Progress α}
    {name : Text} (h : lines.foldlM (Line.run scale) state = .ok next)
    (hname : ∀ line ∈ lines, line.assigns name = false) :
    next.bindings.get? name = state.bindings.get? name := by
  induction lines generalizing state with
  | nil =>
    cases h
    rfl
  | cons line rest ih =>
    rw [List.foldlM_cons] at h
    obtain ⟨middle, hline, hrest⟩ := Except.bind_eq_ok.mp h
    rw [ih hrest fun l hl => hname l (List.mem_cons_of_mem _ hl)]
    exact Line.get?_run hline (hname line List.mem_cons_self)

private theorem get?_runLines {scale : α} {parameters : List α} {front back : List (Line α)}
    {name : Text} {value : Modifier α} {state : Progress α}
    (h : runLines scale parameters (front ++ .assignment name value :: back) = .ok state)
    (hback : ∀ line ∈ back, line.assigns name = false) :
    ∃ earlier v, runLines scale parameters front = .ok earlier ∧
      value.eval earlier.bindings = .ok v ∧ state.bindings.get? name = some v := by
  rw [runLines, List.foldlM_append] at h
  obtain ⟨earlier, hfront, h⟩ := Except.bind_eq_ok.mp h
  rw [List.foldlM_cons] at h
  obtain ⟨next, hline, h⟩ := Except.bind_eq_ok.mp h
  obtain ⟨v, heval, hnext⟩ := Except.bind_eq_ok.mp hline
  cases hnext
  refine ⟨earlier, v, hfront, Except.mapError_eq_ok.mp heval, ?_⟩
  rw [get?_foldlM h hback]
  exact Bindings.get?_set_of_eq _ _ rfl

/-- A macro does what its lines do, one after the other. -/
structure Replays (m : ApertureMacro α) (lines : List (Line α)) : Prop where
  /-- The macro draws what its lines draw.  The lines after the last primitive are not run. -/
  figures : ∀ parameters scale, m.figures parameters scale =
    (runLines scale parameters (upToLastPrimitive lines)).map (·.drawn)
  /-- The first line that fails fails the macro with its error. -/
  fails : ∀ parameters scale why, m.figures parameters scale = .error why ↔
    ∃ front line back state, upToLastPrimitive lines = front ++ line :: back ∧
      runLines scale parameters front = .ok state ∧ line.run scale state = .error why
  /-- The assignments are kept in the order of the primitives that follow them. -/
  ordered : m.assignments.Pairwise (·.before ≤ ·.before)
  /-- What is assigned before a primitive is drawn is what earlier lines assign. -/
  placed : ∀ front p back, lines = front ++ .primitive p :: back →
    m.primitives[(primitivesOf front).length]? = some p ∧
      (m.assignments.filter (·.before ≤ (primitivesOf front).length)).map
        (fun a => (a.name, a.value)) = front.filterMap Line.assignment?
  /-- The variables `$1`, `$2` and so on are the parameters before the first line. -/
  numbered : ∀ (parameters : List α) (k : Nat),
    (Bindings.ofParameters parameters).get? (Text.ofNat (k + 1)) = parameters[k]?
  /-- A line that sees no assignment to a variable finds it as it was before the first line. -/
  unassigned : ∀ parameters scale front line back state name, lines = front ++ line :: back →
    (∀ earlier ∈ front, earlier.assigns name = false) →
    runLines scale parameters front = .ok state →
      state.bindings.get? name = (Bindings.ofParameters parameters).get? name
  /-- A line finds the value of the latest assignment before it. -/
  assigned : ∀ parameters scale front name value middle line back state,
    lines = front ++ .assignment name value :: (middle ++ line :: back) →
    (∀ later ∈ middle, later.assigns name = false) →
    runLines scale parameters (front ++ .assignment name value :: middle) = .ok state →
      ∃ earlier v, runLines scale parameters front = .ok earlier ∧
        value.eval earlier.bindings = .ok v ∧ state.bindings.get? name = some v

/-- A macro that is read from a command does what the lines of the command do, one after the
other. -/
theorem ofCommand_replays {source : Text} {m : ApertureMacro α} (h : ofCommand source = .ok m) :
    ∃ lines, Writes source lines ∧ (∀ others, Writes source others → others = lines) ∧
      Replays m lines := by
  obtain ⟨name, lines, hlines, hm⟩ := writes_of_ofCommand h
  obtain ⟨hassignments, hprimitives⟩ : m.assignments = assignmentsFrom 0 lines ∧
      m.primitives = primitivesOf lines := by
    rw [hm]
    simpa using foldl_add lines ⟨name, [], [], []⟩
  have hfigures (parameters : List α) (scale : α) : m.figures parameters scale =
      (runLines scale parameters (upToLastPrimitive lines)).map (·.drawn) := by
    have hrun := figuresFrom_eq_run scale lines 0 (.ofParameters parameters) []
    rw [← hassignments, ← hprimitives] at hrun
    refine Eq.trans ?_ hrun
    cases hresult : figuresFrom scale 0 (.ofParameters parameters) m.assignments m.primitives
    all_goals exact hresult
  refine ⟨lines, hlines, fun others => hlines.unique,
    ⟨hfigures, ?_, ?_, ?_, Bindings.get?_ofParameters, ?_, ?_⟩⟩
  · intro parameters scale why
    rw [hfigures, Except.map_eq_error]
    exact Except.foldlM_eq_error_iff
  · rw [hassignments]
    exact pairwise_assignmentsFrom 0 lines
  · intro front p back hsplit
    constructor
    · rw [hprimitives, hsplit]
      simp [primitivesOf, List.filterMap_append, Line.primitive?]
    · rw [hassignments, hsplit]
      have hbefore := assignments_before front p back 0
      rwa [Nat.zero_add] at hbefore
  · intro parameters scale front line back state name _ hnone hrun
    exact get?_foldlM hrun hnone
  · intro parameters scale front name value middle line back state _ hlater hrun
    exact get?_runLines hrun hlater

/-- A ring and a hole, with a variable that is assigned twice and in the end to no purpose. -/
def washer : Text :=
  "%AMW*0  washer* 1, 1 ,$1,0,*$3 =$1x$2* * $$3= $3/2 *+1,0, $3,0,.5*$3=$9*%".toList

def washerLines : List (Line Float) :=
  [.comment "washer".toList,
    .primitive ⟨.circle, [.literal 1, .named "1".toList, .literal 0, .literal 0]⟩,
    .assignment "3".toList (.expression "$1x$2".toList),
    .assignment "3".toList (.expression "$3/2".toList),
    .primitive ⟨.circle, [.literal 0, .named "3".toList, .literal 0, .literal 0.5]⟩,
    .assignment "3".toList (.named "9".toList)]

theorem washer_replays :
    ∃ m : ApertureMacro Float, ofCommand washer = .ok m ∧ Writes washer washerLines ∧
      Replays m washerLines ∧
        m.figures [6, 0.5] 2 =
          .ok [.circle true 12 ⟨0, 0⟩ 0, .circle false 3 ⟨0, 1⟩ 0] := by
  have hread : ∃ m : ApertureMacro Float, ofCommand washer = .ok m := ⟨_, rfl⟩
  obtain ⟨m, hm⟩ := hread
  have hlines : Writes washer washerLines := writes_iff.mpr ⟨_, _, _, rfl, rfl, rfl⟩
  obtain ⟨lines, -, hunique, hreplays⟩ := ofCommand_replays hm
  obtain rfl := hunique _ hlines
  exact ⟨m, hm, hlines, hreplays, (hreplays.figures [6, 0.5] 2).trans (by decide +kernel)⟩

end ApertureMacro

end Gerber
