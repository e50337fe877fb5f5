import Gerber.Proofs.Coord.Numerals
import Gerber.Proofs.Stream.Effect

/-!
# Reading steps off a stream

The steps of a compiled stream are told by its tokens alone.  Each operation before the first stop
gives one step, and the stop gives the last.  The modal state of a step is what the commands before
it set last, and its place is what the operations up to it wrote last.
-/

namespace Gerber

variable {α β : Type}

namespace Command

def interpolation? : Command → Option Interpolation
  | interpolation mode => some mode
  | _ => none

def polarity? : Command → Option Polarity
  | polarity p => some p
  | _ => none

def quadrant? : Command → Option Quadrant
  | quadrant mode => some mode
  | _ => none

def aperture? : Command → Option Nat
  | select code => some code
  | _ => none

def body? : Command → Option Text
  | operation body _ => some body
  | _ => none

end Command

namespace Token

def command (token : Token) : Command := Command.ofText token.text

def isStop (token : Token) : Bool := token.command = .stop

end Token

namespace Stream

def latest (pick : Command → Option β) (tokens : List Token) : Option β :=
  tokens.reverse.findSome? fun token => pick token.command

def bodies (tokens : List Token) : List Text :=
  tokens.filterMap fun token => token.command.body?

/-- The modal state of a step is what the tokens set last, or that of the root step. -/
structure SetBy [Scalar α] (tokens : List Token) (step : Step α) : Prop where
  interpolation : step.interpolation =
    (latest Command.interpolation? tokens).getD (Step.root : Step α).interpolation
  polarity : step.polarity = (latest Command.polarity? tokens).getD (Step.root : Step α).polarity
  quadrant : step.quadrant = (latest Command.quadrant? tokens).getD (Step.root : Step α).quadrant
  aperture : step.aperture = (latest Command.aperture? tokens).or (Step.root : Step α).aperture

/-- What a step that `token` completes after `last` owes to the tokens before. -/
structure Completes [Scalar α] (before : List Token) (token : Token) (last step : Step α) :
    Prop where
  number : step.number = (bodies before).length + 1
  line : step.line = token.line
  prev : step.prev = last.coord
  modal : SetBy before step

/-- The step of an operation.  Its place goes by all the bodies so far, its offsets by its own. -/
structure IsOperation [Scalar α] (format : Format) (before : List Token) (token : Token)
    (body : Text) (action : Action) (last step : Step α) : Prop
    extends Completes before token last step where
  action : step.action = action
  place : ∀ axis : Axis, axis.isModal → Coord.Shows format
    (Coord.lastNumeral axis (bodies before ++ [body])) Scalar.zero (step.coord.get axis)
  offset : ∀ axis : Axis, ¬ axis.isModal → Coord.Shows format
    (Coord.lastNumeral axis [body]) Scalar.zero (step.coord.get axis)
  seq : step.coord.seq = UInt64.ofNat step.number

structure IsEnd [Scalar α] (before : List Token) (token : Token) (last step : Step α) : Prop
    extends Completes before token last step where
  action : step.action = .stop
  coord : step.coord = last.coord
  stepRepeat : step.stepRepeat = none

/-- The steps of a compiled stream are those that its tokens tell.  A token is reached if no stop
is before it; the `k`-th reached operation, and the stop after all of them, make the step at their
own position and continue the step before it. -/
structure IsReading [Scalar α] (format : Format) (tokens : List Token) (compiled : Compiled α) :
    Prop where
  root : compiled.steps[0]? = some Step.root
  length : compiled.steps.length =
    1 + (bodies (tokens.takeWhile fun token => !token.isStop)).length +
      if compiled.stopped then 1 else 0
  stopped : compiled.stopped = tokens.any Token.isStop
  operation : ∀ (before after : List Token) (token : Token) (body : Text) (action : Action),
    tokens = before ++ token :: after → (∀ token ∈ before, !token.isStop) →
    token.command = .operation body action →
      ∃ last step, compiled.steps[(bodies before).length]? = some last ∧
        compiled.steps[(bodies before).length + 1]? = some step ∧
          IsOperation format before token body action last step
  stop : ∀ (before after : List Token) (token : Token),
    tokens = before ++ token :: after → (∀ token ∈ before, !token.isStop) →
    token.isStop →
      ∃ last step, compiled.steps[(bodies before).length]? = some last ∧
        compiled.steps[(bodies before).length + 1]? = some step ∧
          IsEnd before token last step

theorem latest_concat (pick : Command → Option β) (before : List Token) (token : Token) :
    latest pick (before ++ [token]) = (pick token.command).or (latest pick before) := by
  rw [latest, List.reverse_append, List.findSome?_append]
  simp only [List.reverse_singleton, List.findSome?_singleton, latest]

private theorem bodies_concat (before : List Token) (token : Token) :
    bodies (before ++ [token]) = bodies before ++ token.command.body?.toList := by
  cases h : token.command.body? <;> simp [bodies, List.filterMap_append, h]

variable [Scalar α]

/-- What the commands so far have made of a cursor. -/
structure Reads (format : Format) (before : List Token) (cursor : Cursor α) : Prop where
  length : cursor.completed.length = (bodies before).length
  number : cursor.pending.number = (bodies before).length + 1
  modal : SetBy before cursor.pending
  place : ∀ axis : Axis, axis.isModal → Coord.Shows format
    (Coord.lastNumeral axis (bodies before)) Scalar.zero (cursor.last.coord.get axis)
  seq : cursor.last.coord.seq = UInt64.ofNat (bodies before).length

private theorem reads_initial (format : Format) : Reads format [] (.initial : Cursor α) where
  length := rfl
  number := rfl
  modal := ⟨rfl, rfl, rfl, rfl⟩
  place axis _ := by cases axis <;> rfl
  seq := rfl

variable {setting : Setting α} {cursor final : Cursor α} {before : List Token} {token : Token}
  {s t : Session α} {outcome : Outcome} {step : Step α}

/-- Only a stop stops. -/
theorem Effect.stop_iff {pending : Step α} {last : Coord α}
    (h : Effect setting pending last token s outcome step t) :
    outcome = .stop ↔ token.isStop := by
  cases h with
  | idle hidle _ =>
    have hne : Command.ofText token.text ≠ .stop := by
      intro hstop
      rw [hstop] at hidle
      cases hidle
    simp [Token.isStop, Token.command, hne]
  | _ => simp_all [Token.isStop, Token.command]

private theorem Effect.body?_eq_none {pending : Step α} {last : Coord α}
    (h : Effect setting pending last token s outcome step t) (hne : outcome ≠ .complete) :
    token.command.body? = none := by
  cases h with
  | operation => exact absurd rfl hne
  | idle hidle _ =>
    unfold Token.command
    cases hc : Command.ofText token.text with
    | operation body action =>
      rw [hc] at hidle
      cases hidle
    | _ => rfl
  | _ => simp_all [Token.command, Command.body?]

private theorem Effect.number_eq {pending : Step α} {last : Coord α}
    (h : Effect setting pending last token s outcome step t) : step.number = pending.number := by
  cases h <;> rfl

theorem SetBy.concat {pending : Step α} (h : SetBy before pending)
    (hi : step.interpolation = token.command.interpolation?.getD pending.interpolation)
    (hp : step.polarity = token.command.polarity?.getD pending.polarity)
    (hq : step.quadrant = token.command.quadrant?.getD pending.quadrant)
    (ha : step.aperture = token.command.aperture?.or pending.aperture) :
    SetBy (before ++ [token]) step where
  interpolation := by rw [hi, h.interpolation, latest_concat, Option.getD_or]
  polarity := by rw [hp, h.polarity, latest_concat, Option.getD_or]
  quadrant := by rw [hq, h.quadrant, latest_concat, Option.getD_or]
  aperture := by rw [ha, h.aperture, latest_concat, Option.or_assoc]

private theorem Effect.setBy {pending : Step α} {last : Coord α}
    (h : Effect setting pending last token s outcome step t) (hset : SetBy before pending) :
    SetBy (before ++ [token]) step := by
  cases h with
  | idle hidle _ =>
    unfold Command.isIdle at hidle
    refine hset.concat ?_ ?_ ?_ ?_ <;>
      · unfold Token.command
        split at hidle <;> simp_all [Command.interpolation?, Command.polarity?,
          Command.quadrant?, Command.aperture?]
  | _ =>
    refine hset.concat ?_ ?_ ?_ ?_ <;>
      simp_all [Token.command, Command.interpolation?, Command.polarity?, Command.quadrant?,
        Command.aperture?]

private theorem shows_operation {body : Text} {coord : Coord α}
    (h : Coord.ofBody setting.format (some cursor.last.coord) body = .ok coord)
    (hr : Reads setting.format before cursor) :
    (∀ axis : Axis, axis.isModal → Coord.Shows setting.format
      (Coord.lastNumeral axis (bodies before ++ [body])) Scalar.zero (coord.get axis)) ∧
    (∀ axis : Axis, ¬ axis.isModal → Coord.Shows setting.format
      (Coord.lastNumeral axis [body]) Scalar.zero (coord.get axis)) ∧
    coord.seq = UInt64.ofNat ((bodies before).length + 1) := by
  obtain ⟨hshows, hseq⟩ := Coord.shows_of_ofBody h
  refine ⟨fun axis haxis => ?_, fun axis haxis => ?_, ?_⟩
  · rw [Coord.lastNumeral_append]
    refine (hr.place axis haxis).or ?_
    have hown := hshows axis
    rwa [if_pos haxis] at hown
  · have hown := hshows axis
    rwa [if_neg haxis] at hown
  · rw [hseq, hr.seq]
    exact (UInt64.ofNat_add _ _).symm

/-- A command that does not stop the stream keeps the reading. -/
theorem Reads.follow (hr : Reads setting.format before cursor)
    (h : Effect setting cursor.pending cursor.last.coord token s outcome step t)
    (hne : outcome ≠ .stop) :
    Reads setting.format (before ++ [token]) (cursor.follow outcome step) := by
  have hmodal := h.setBy hr.modal
  have hnumber := h.number_eq.trans hr.number
  have hretain (hbody : token.command.body? = none) :
      Reads setting.format (before ++ [token]) { cursor with pending := step } := by
    have hbodies : bodies (before ++ [token]) = bodies before := by
      rw [bodies_concat, hbody, Option.toList_none, List.append_nil]
    exact ⟨hbodies ▸ hr.length, hbodies ▸ hnumber, hmodal, hbodies ▸ hr.place, hbodies ▸ hr.seq⟩
  cases outcome with
  | next => exact hretain (h.body?_eq_none (by decide))
  | skip => exact hretain (h.body?_eq_none (by decide))
  | stop => exact absurd rfl hne
  | complete =>
    cases h with
    | @operation body action coord t hc hcoord _ =>
      have hbodies : bodies (before ++ [token]) = bodies before ++ [body] := by
        rw [bodies_concat, Token.command, hc]
        rfl
      obtain ⟨hplace, -, hseq⟩ := shows_operation hcoord hr
      exact {
        length := by
          rw [hbodies, List.length_append]
          exact congrArg (· + 1) hr.length
        number := by
          rw [hbodies, List.length_append]
          exact congrArg (· + 1) hr.number
        modal := ⟨hmodal.interpolation, hmodal.polarity, hmodal.quadrant, hmodal.aperture⟩
        place := hbodies ▸ hplace
        seq := by
          rw [hbodies, List.length_append]
          exact hseq }

private theorem Advances.reaches {rest : List Token} {stopped : Bool} (middle : List Token)
    (h : Advances setting cursor s (middle ++ rest) final stopped t)
    (hstop : ∀ token ∈ middle, !token.isStop) (hr : Reads setting.format before cursor) :
    ∃ reached u, Reads setting.format (before ++ middle) reached ∧
      Advances setting reached u rest final stopped t := by
  induction middle generalizing before cursor s with
  | nil => exact ⟨cursor, s, by rwa [List.append_nil], h⟩
  | cons token middle ih =>
    have hhead := hstop token List.mem_cons_self
    cases h with
    | stop he _ =>
      rw [he.stop_iff.mp rfl] at hhead
      cases hhead
    | step he hne h =>
      obtain ⟨reached, u, hreads, h⟩ :=
        ih h (fun later hlater => hstop later (List.mem_cons_of_mem _ hlater)) (hr.follow he hne)
      rw [← List.append_cons] at hreads
      exact ⟨reached, u, hreads, h⟩

private theorem Cursor.steps_follow_prefix (cursor : Cursor α) (outcome : Outcome) (step : Step α) :
    cursor.steps <+: (cursor.follow outcome step).steps := by
  have hadd : cursor.steps <+: Step.root :: (step :: cursor.completed).reverse := by
    rw [List.reverse_cons, ← List.cons_append]
    exact List.prefix_append _ _
  cases outcome with
  | next => exact List.prefix_rfl
  | skip => exact List.prefix_rfl
  | complete => exact hadd
  | stop => exact hadd

private theorem Advances.steps_prefix {tokens : List Token} {stopped : Bool}
    (h : Advances setting cursor s tokens final stopped t) : cursor.steps <+: final.steps := by
  induction h with
  | done _ => exact List.prefix_rfl
  | step _ _ _ ih => exact (Cursor.steps_follow_prefix _ _ _).trans ih
  | stop _ _ => exact Cursor.steps_follow_prefix _ _ _

private theorem getElem?_of_prefix {steps : List (Step α)} (hr : Reads setting.format before cursor)
    (h : Step.root :: (step :: cursor.completed).reverse <+: steps) :
    steps[(bodies before).length]? = some cursor.last ∧
      steps[(bodies before).length + 1]? = some step := by
  obtain ⟨later, rfl⟩ := h
  rw [← hr.length, Cursor.last]
  cases cursor.completed with
  | nil => simp
  | cons last completed => simp

private theorem Advances.stopped_eq {tokens : List Token} {stopped : Bool}
    (h : Advances setting cursor s tokens final stopped t) : stopped = tokens.any Token.isStop := by
  induction h with
  | done _ => rfl
  | step he hne _ ih =>
    rw [List.any_cons, ← ih, Bool.eq_false_iff.mpr fun hstop => hne (he.stop_iff.mpr hstop),
      Bool.false_or]
  | stop he _ => rw [List.any_cons, he.stop_iff.mp rfl, Bool.true_or]

private theorem isOperation_of_advances {after : List Token} {stopped : Bool} {body : Text}
    {action : Action} (hr : Reads setting.format before cursor)
    (h : Advances setting cursor s (token :: after) final stopped t)
    (hc : token.command = .operation body action) :
    ∃ last step, final.steps[(bodies before).length]? = some last ∧
      final.steps[(bodies before).length + 1]? = some step ∧
        IsOperation setting.format before token body action last step := by
  cases h with
  | stop he _ =>
    have hstop := he.stop_iff.mp rfl
    rw [Token.isStop, hc] at hstop
    cases hstop
  | step he hne h =>
    cases he with
    | @operation body' action' coord t hc' hcoord _ =>
      obtain ⟨rfl, rfl⟩ := Command.operation.inj (hc.symm.trans hc')
      obtain ⟨hlast, hstep⟩ := getElem?_of_prefix hr h.steps_prefix
      obtain ⟨hplace, hoffset, hseq⟩ := shows_operation hcoord hr
      refine ⟨_, _, hlast, hstep, ?_⟩
      exact {
        number := hr.number
        line := rfl
        prev := rfl
        modal := ⟨hr.modal.interpolation, hr.modal.polarity, hr.modal.quadrant, hr.modal.aperture⟩
        action := rfl
        place := hplace
        offset := hoffset
        seq := hseq.trans (congrArg UInt64.ofNat hr.number.symm) }
    | idle hidle _ =>
      unfold Token.command at hc
      rw [hc] at hidle
      cases hidle
    | _ => simp_all [Token.command]

private theorem isEnd_of_advances {after : List Token} {stopped : Bool}
    (hr : Reads setting.format before cursor)
    (h : Advances setting cursor s (token :: after) final stopped t) (hstop : token.isStop) :
    ∃ last step, final.steps[(bodies before).length]? = some last ∧
      final.steps[(bodies before).length + 1]? = some step ∧ IsEnd before token last step := by
  have hprefix := h.steps_prefix
  cases h with
  | step he hne _ => exact absurd (he.stop_iff.mpr hstop) hne
  | stop he _ =>
    obtain ⟨hlast, hstep⟩ := getElem?_of_prefix hr List.prefix_rfl
    refine ⟨_, _, hlast, hstep, ?_⟩
    cases he
    exact {
      number := hr.number
      line := rfl
      prev := rfl
      modal := ⟨hr.modal.interpolation, hr.modal.polarity, hr.modal.quadrant, hr.modal.aperture⟩
      action := rfl
      coord := rfl
      stepRepeat := rfl }

private theorem length_steps_of_advances {tokens : List Token} {stopped : Bool}
    (h : Advances setting .initial s tokens final stopped t) :
    final.steps.length = 1 + (bodies (tokens.takeWhile fun token => !token.isStop)).length +
      if stopped then 1 else 0 := by
  have hsplit := (List.takeWhile_append_dropWhile : tokens.takeWhile (fun token => !token.isStop) ++
    tokens.dropWhile (fun token => !token.isStop) = tokens)
  have hhead := List.head?_dropWhile_not (fun token : Token => !token.isStop) tokens
  rw [← hsplit] at h
  obtain ⟨reached, u, hr, hrest⟩ :=
    h.reaches _ (List.all_eq_true.mp List.all_takeWhile) (reads_initial setting.format)
  have hlength := hr.length
  rw [List.nil_append] at hlength
  generalize tokens.dropWhile (fun token => !token.isStop) = rest at hhead hrest
  cases hrest with
  | done _ =>
    simp only [Cursor.steps, List.length_cons, List.length_reverse, hlength]
    exact Nat.add_comm _ _
  | step he hne _ =>
    simp only [List.head?_cons, Bool.not_eq_false'] at hhead
    exact absurd (he.stop_iff.mpr hhead) hne
  | stop he _ =>
    simp only [Cursor.follow, Cursor.steps, List.length_cons, List.length_reverse, hlength]
    exact congrArg (· + 1) (Nat.add_comm _ _)

/-- The steps of a compiled stream are those that its tokens tell, whatever the session. -/
theorem isReading_of_compile {tokens : List Token} {compiled : Compiled α}
    (h : (compile setting tokens).Yields s compiled t) :
    IsReading setting.format tokens compiled := by
  obtain ⟨final, hadvances, hsteps⟩ := advances_of_compile h
  have hreach {before after : List Token} {token : Token}
      (hsplit : tokens = before ++ token :: after)
      (hstop : ∀ token ∈ before, !token.isStop) :
      ∃ reached u, Reads setting.format before reached ∧
        Advances setting reached u (token :: after) final compiled.stopped t :=
    (hsplit ▸ hadvances).reaches before hstop (reads_initial _)
  exact {
    root := by rw [hsteps]; rfl
    length := by rw [hsteps]; exact length_steps_of_advances hadvances
    stopped := hadvances.stopped_eq
    operation := by
      intro before after token body action hsplit hstop hc
      obtain ⟨reached, u, hr, hrest⟩ := hreach hsplit hstop
      rw [hsteps]
      exact isOperation_of_advances hr hrest hc
    stop := by
      intro before after token hsplit hstop htoken
      obtain ⟨reached, u, hr, hrest⟩ := hreach hsplit hstop
      rw [hsteps]
      exact isEnd_of_advances hr hrest htoken }

/-- A stream with modal commands between its operations, and an operation after its end. -/
def interleaved : List Token :=
  [⟨"G02*".toList, 3⟩, ⟨"X10D02*".toList, 4⟩, ⟨"%LPC*%".toList, 5⟩, ⟨"Y20I5D01*".toList, 6⟩,
    ⟨"M02*".toList, 7⟩, ⟨"X30D01*".toList, 8⟩]

/-- Millimetres with three integer and six decimal digits, and no apertures. -/
def plainSetting : Setting Float := ⟨⟨.millimeters, 3, 6⟩, .empty, Scalar.zero⟩

theorem isReading_of_compile_interleaved :
    ∃ compiled t, (compile plainSetting interleaved).Yields .initial compiled t ∧
      (compiled.steps.map Step.action, compiled.stopped) = ([.move, .move, .draw, .stop], true) ∧
        IsReading plainSetting.format interleaved compiled := by
  have hcompiles : ((compile plainSetting interleaved).outcome .initial).1.toOption.map
      (fun compiled => (compiled.steps.map Step.action, compiled.stopped)) =
        some ([.move, .move, .draw, .stop], true) := by
    decide +kernel
  obtain ⟨compiled, t, hyields, hshown⟩ := Run.exists_yields_of_outcome hcompiles
  exact ⟨compiled, t, hyields, hshown, isReading_of_compile hyields⟩

end Stream

end Gerber
