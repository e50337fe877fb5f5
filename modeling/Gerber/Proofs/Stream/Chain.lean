import Gerber.Proofs.Stream.Effect

/-!
# How steps continue each other

Each step of a stream starts where the one before it ends, and has its origin at the origin of the
plane.
-/

namespace Gerber

variable {α : Type}

/-- Each step starts where the one before it ends, or at a coordinate of `E`.  The first continues
`prev`. -/
def Chained (E : Coord α → Prop) (prev : Coord α) : List (Step α) → Prop
  | [] => True
  | step :: rest => (step.prev = prev ∨ E step.prev) ∧ Chained E step.coord rest

/-- Where steps end that continue `prev`. -/
def endOf (prev : Coord α) : List (Step α) → Coord α
  | [] => prev
  | step :: rest => endOf step.coord rest

/-- Each step but the first starts where the one before it ends. -/
def Joined (steps : List (Step α)) : Prop :=
  ∀ i a b, steps[i]? = some a → steps[i + 1]? = some b → b.prev = a.coord

section

variable {E E' : Coord α → Prop} {prev other : Coord α} {steps rest : List (Step α)} {a b : Step α}

theorem chained_append : Chained E prev (steps ++ rest) ↔
    Chained E prev steps ∧ Chained E (endOf prev steps) rest := by
  induction steps generalizing prev with
  | nil => simp [Chained, endOf]
  | cons step steps ih => simp [Chained, endOf, ih, and_assoc]

private theorem endOf_concat (prev : Coord α) (steps : List (Step α)) (step : Step α) :
    endOf prev (steps ++ [step]) = step.coord := by
  induction steps generalizing prev with
  | nil => rfl
  | cons first steps ih => exact ih first.coord

theorem Chained.mono (h : Chained E prev steps) (hE : ∀ c, E c → E' c) :
    Chained E' prev steps := by
  induction steps generalizing prev with
  | nil => trivial
  | cons step rest ih => exact ⟨h.1.imp_right (hE _), ih h.2⟩

/-- What continues a coordinate of `E` can stand anywhere. -/
theorem Chained.of_start (h : Chained E prev steps) (hstart : other = prev ∨ E prev) :
    Chained E other steps := by
  cases steps with
  | nil => trivial
  | cons step rest =>
    refine ⟨?_, h.2⟩
    rcases hstart with rfl | hstart
    · exact h.1
    · refine .inr ?_
      rcases h.1 with heq | hE
      · rwa [heq]
      · exact hE

theorem Chained.prev_eq {i : Nat} (h : Chained E prev steps) (ha : steps[i]? = some a)
    (hb : steps[i + 1]? = some b) : b.prev = a.coord ∨ E b.prev := by
  induction steps generalizing prev i with
  | nil => cases ha
  | cons step rest ih =>
    cases i with
    | zero =>
      obtain rfl := Option.some.inj ha
      cases rest with
      | nil => cases hb
      | cons next rest =>
        obtain rfl := Option.some.inj hb
        exact h.2.1
    | succ i => exact ih h.2 ha hb

/-- A part of a chain is joined. -/
theorem Chained.joined {before after : List (Step α)}
    (h : Chained (fun _ => False) prev (before ++ (steps ++ after))) : Joined steps := by
  intro i a b ha hb
  have hpart := (chained_append.mp (chained_append.mp h).2).1
  exact (hpart.prev_eq ha hb).resolve_right id

end

namespace Stream

variable [Scalar α] {setting : Setting α} {cursor final : Cursor α} {tokens : List Token}
  {stopped : Bool} {s t : Session α} {token : Token} {outcome : Outcome} {pending step : Step α}
  {last : Coord α}

/-- A step that is completed starts from the last one. -/
theorem Effect.prev_eq (h : Effect setting pending last token s outcome step t)
    (hcompletes : outcome = .complete ∨ outcome = .stop) : step.prev = last := by
  cases h with
  | operation => rfl
  | stop => rfl
  | _ => simp at hcompletes

private theorem Effect.origin_eq (h : Effect setting pending last token s outcome step t) :
    step.origin = pending.origin := by
  cases h <;> rfl

private theorem Cursor.last_coord (cursor : Cursor α) :
    cursor.last.coord = endOf Coord.zero cursor.steps := by
  rw [Cursor.last, Cursor.steps]
  cases cursor.completed with
  | nil => rfl
  | cons step completed =>
    rw [List.reverse_cons, ← List.cons_append, endOf_concat]
    rfl

theorem Advances.chained (h : Advances setting cursor s tokens final stopped t)
    (hc : Chained (fun _ => False) Coord.zero cursor.steps) :
    Chained (fun _ => False) Coord.zero final.steps := by
  have hfollow {cursor : Cursor α} {token : Token} {s t : Session α} {outcome : Outcome}
      {step : Step α} (he : Effect setting cursor.pending cursor.last.coord token s outcome step t)
      (hc : Chained (fun _ => False) Coord.zero cursor.steps) :
      Chained (fun _ => False) Coord.zero (cursor.follow outcome step).steps := by
    rw [Cursor.steps_follow, chained_append, ← cursor.last_coord]
    refine ⟨hc, ?_⟩
    split
    · rename_i hcompletes
      exact ⟨.inl (he.prev_eq hcompletes), trivial⟩
    · trivial
  induction h with
  | done _ => exact hc
  | step he _ _ ih => exact ih (hfollow he hc)
  | stop he _ => exact hfollow he hc

/-- Each step of a stream starts where the one before it ends. -/
theorem chained_of_compile {compiled : Compiled α}
    (h : (compile setting tokens).Yields s compiled t) :
    Chained (fun _ => False) Coord.zero compiled.steps := by
  obtain ⟨final, hadvances, hsteps⟩ := advances_of_compile h
  rw [hsteps]
  exact hadvances.chained ⟨.inl rfl, trivial⟩

/-- No step of a stream has an origin of its own. -/
theorem origin_of_compile {compiled : Compiled α}
    (h : (compile setting tokens).Yields s compiled t) :
    ∀ step ∈ compiled.steps, step.origin = Vec.zero := by
  obtain ⟨final, hadvances, hsteps⟩ := advances_of_compile h
  have hfinal : final.pending.origin = Vec.zero ∧
      ∀ step ∈ final.completed, step.origin = Vec.zero := by
    have hkeep (cursor : Cursor α) (token : Token) (s : Session α) (outcome : Outcome)
        (step : Step α) (t : Session α)
        (he : Effect setting cursor.pending cursor.last.coord token s outcome step t)
        (hc : cursor.pending.origin = Vec.zero ∧
          ∀ step ∈ cursor.completed, step.origin = Vec.zero) :
        (cursor.follow outcome step).pending.origin = Vec.zero ∧
          ∀ other ∈ (cursor.follow outcome step).completed, other.origin = Vec.zero := by
      have hstep := he.origin_eq.trans hc.1
      have hall : ∀ other ∈ step :: cursor.completed, other.origin = Vec.zero :=
        List.forall_mem_cons.mpr ⟨hstep, hc.2⟩
      cases outcome with
      | next => exact ⟨hstep, hc.2⟩
      | skip => exact ⟨hstep, hc.2⟩
      | complete => exact ⟨rfl, hall⟩
      | stop => exact ⟨hstep, hall⟩
    exact hadvances.invariant (fun _ _ _ _ hc => hc) hkeep ⟨rfl, List.forall_mem_nil _⟩
  rw [hsteps, Cursor.steps]
  refine List.forall_mem_cons.mpr ⟨rfl, fun step hmem => ?_⟩
  exact hfinal.2 step (List.mem_reverse.mp hmem)

end Stream

end Gerber
