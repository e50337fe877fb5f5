import Gerber.Expression
import Mathlib.Data.List.TakeWhile

/-!
# Splicing groups

An expression can also be evaluated by rewriting: the parenthesis that closes first, together with
the one opened last before it, encloses a group without parentheses, and the value of the group
takes its place.  This ends, since each step leaves fewer pieces, and it evaluates to the same.
-/

namespace Gerber.Expression

variable {α : Type}

def Piece.isClosing : Piece α → Bool
  | .closing => true
  | _ => false

def Piece.isOpening : Piece α → Bool
  | .opening => true
  | _ => false

def Piece.item? : Piece α → Option (Item α)
  | .item i => some i
  | _ => none

/-- The number that is left when everything else has been evaluated. -/
def single? : List (Piece α) → Option α
  | [.item (.number value)] => some value
  | _ => none

/-- What stands before the group that is closed first, what stands in it, and what stands after
it. -/
def innermost? (parts : List (Piece α)) :
    Option (List (Piece α) × List (Item α) × List (Piece α)) :=
  match parts.dropWhile (!·.isClosing) with
  | [] => none
  | _ :: after =>
    let front := (parts.takeWhile (!·.isClosing)).reverse
    match front.dropWhile (!·.isOpening) with
    | [] => none
    | _ :: before =>
      some (before.reverse, (front.takeWhile (!·.isOpening)).reverse.filterMap Piece.item?, after)

private theorem length_innermost? {parts before after : List (Piece α)} {items : List (Item α)}
    (h : innermost? parts = some (before, items, after)) :
    before.length + after.length + 2 ≤ parts.length := by
  unfold innermost? at h
  split at h
  · cases h
  · rename_i hafter
    simp only at h
    split at h
    · cases h
    · rename_i hbefore
      cases h
      have hparts := congrArg List.length
        (List.takeWhile_append_dropWhile (p := fun q : Piece α => !q.isClosing) (l := parts))
      have hfront :=
        (List.dropWhile_sublist (l := (parts.takeWhile (!·.isClosing)).reverse)
          fun q : Piece α => !q.isOpening).length_le
      rw [hafter, List.length_append, List.length_cons] at hparts
      rw [hbefore, List.length_cons, List.length_reverse] at hfront
      rw [List.length_reverse]
      omega

variable [Scalar α]

/-- Splices the group that is closed first until a single number is left. -/
def settle (expression : Text) (parts : List (Piece α)) : Except ExpressionFault α :=
  match _ : innermost? parts with
  | none => .error (.unbalanced expression)
  | some (before, items, after) =>
    match groupValue expression items with
    | .error e => .error e
    | .ok value =>
      match single? (before ++ .item (.number value) :: after) with
      | some result => .ok result
      | none => settle expression (before ++ .item (.number value) :: after)
termination_by parts.length
decreasing_by
  have hlength := length_innermost? (by assumption)
  simp only [List.length_append, List.length_cons]
  omega

omit [Scalar α]

private theorem not_isClosing_iff {piece : Piece α} : (!piece.isClosing) = true ↔
    piece ≠ .closing := by
  cases piece <;> simp [Piece.isClosing]

private theorem innermost?_of_unclosed {parts : List (Piece α)} (h : .closing ∉ parts) :
    innermost? parts = none := by
  have hall : parts.dropWhile (!·.isClosing) = [] := by
    rw [List.dropWhile_eq_nil_iff]
    intro piece hmem
    exact not_isClosing_iff.2 fun heq => h (heq ▸ hmem)
  rw [innermost?, hall]

private theorem innermost?_append_closing {front : List (Piece α)} (hfront : .closing ∉ front)
    (after : List (Piece α)) :
    innermost? (front ++ .closing :: after) =
      match front.reverse.dropWhile (!·.isOpening) with
      | [] => none
      | _ :: before =>
        some (before.reverse,
          (front.reverse.takeWhile (!·.isOpening)).reverse.filterMap Piece.item?, after) := by
  have hopen : ∀ piece ∈ front, (!piece.isClosing) = true := fun piece hmem =>
    not_isClosing_iff.2 fun heq => hfront (heq ▸ hmem)
  have htake : (front ++ .closing :: after).takeWhile (!·.isClosing) = front := by
    rw [List.takeWhile_append_of_pos hopen]
    simp [Piece.isClosing]
  have hdrop : (front ++ .closing :: after).dropWhile (!·.isClosing) = .closing :: after := by
    rw [List.dropWhile_append_of_pos hopen]
    simp [Piece.isClosing]
  rw [innermost?, hdrop]
  simp only [htake]

private theorem not_isOpening_of_mem_map {items : List (Item α)} :
    ∀ piece ∈ (items.map Piece.item).reverse, (!piece.isOpening) = true := by
  intro piece hmem
  obtain ⟨i, -, rfl⟩ := List.mem_map.1 (List.mem_reverse.1 hmem)
  rfl

private theorem innermost?_of_surplus (items : List (Item α)) (after : List (Piece α)) :
    innermost? (items.map .item ++ .closing :: after) = none := by
  rw [innermost?_append_closing (by simp), List.dropWhile_eq_nil_iff.2 not_isOpening_of_mem_map]

private theorem innermost?_of_group {before : List (Piece α)} (hbefore : .closing ∉ before)
    (items : List (Item α)) (after : List (Piece α)) :
    innermost? (before ++ .opening :: (items.map .item ++ .closing :: after)) =
      some (before, items, after) := by
  have hfront : (before ++ .opening :: items.map Piece.item).reverse =
      (items.map Piece.item).reverse ++ .opening :: before.reverse := by simp
  have hitems : (items.map Piece.item).filterMap Piece.item? = items := by
    rw [List.filterMap_map]
    exact List.filterMap_some
  rw [show before ++ .opening :: (items.map .item ++ .closing :: after) =
    (before ++ .opening :: items.map .item) ++ .closing :: after by simp]
  rw [innermost?_append_closing (by simp [hbefore]), hfront,
    List.dropWhile_append_of_pos not_isOpening_of_mem_map,
    List.takeWhile_append_of_pos not_isOpening_of_mem_map]
  simp [Piece.isOpening, hitems]

/-- The pieces that groups which are still open consist of. -/
def standing : List (Item α) → List (List (Item α)) → List (Piece α)
  | group, [] => group.reverse.map .item
  | group, next :: outer => standing next outer ++ .opening :: group.reverse.map .item

private theorem standing_cons (i : Item α) (group : List (Item α)) (outer : List (List (Item α))) :
    standing (i :: group) outer = standing group outer ++ [.item i] := by
  cases outer <;> simp [standing]

private theorem closing_not_mem_standing (group : List (Item α)) (outer : List (List (Item α))) :
    .closing ∉ standing group outer := by
  induction outer generalizing group with
  | nil => simp [standing]
  | cons next outer ih => simp [standing, ih]

private theorem single?_eq_some_iff {parts : List (Piece α)} {value : α} :
    single? parts = some value ↔ parts = [.item (.number value)] := by
  unfold single?
  split <;> simp_all

private theorem single?_eq_none_iff {parts : List (Piece α)} :
    single? parts = none ↔ ∀ value, parts ≠ [.item (.number value)] := by
  simp only [Option.eq_none_iff_forall_ne_some, ne_eq, single?_eq_some_iff]

private theorem single?_standing {group : List (Item α)} {outer : List (List (Item α))}
    {value : α} :
    single? (standing group outer) = some value ↔ group = [.number value] ∧ outer = [] := by
  rw [single?_eq_some_iff]
  cases outer with
  | nil => simp [standing, List.map_eq_singleton_iff]
  | cons next outer => simp [standing, List.append_eq_singleton_iff]

variable [Scalar α]

private theorem settle_of_none {expression : Text} {parts : List (Piece α)}
    (h : innermost? parts = none) : settle expression parts = .error (.unbalanced expression) := by
  rw [settle]
  split
  · rfl
  · rename_i hsome
    rw [h] at hsome
    cases hsome

private theorem settle_of_some {expression : Text} {parts before after : List (Piece α)}
    {items : List (Item α)} (h : innermost? parts = some (before, items, after)) :
    settle expression parts =
      match groupValue expression items with
      | .error e => .error e
      | .ok value =>
        match single? (before ++ .item (.number value) :: after) with
        | some result => .ok result
        | none => settle expression (before ++ .item (.number value) :: after) := by
  rw [settle]
  split
  · rename_i hnone
    rw [h] at hnone
    cases hnone
  · rename_i hsome
    rw [h] at hsome
    cases hsome
    rfl

/-- Reading on amounts to splicing what is still open together with what is still to come. -/
private theorem collapse_eq_settle (expression : Text) (group : List (Item α))
    (outer : List (List (Item α))) (rest : List (Piece α)) :
    collapse expression group outer rest =
      match single? (standing group outer ++ rest) with
      | some result => .ok result
      | none => settle expression (standing group outer ++ rest) := by
  induction rest generalizing group outer with
  | nil =>
    rw [List.append_nil, settle_of_none (innermost?_of_unclosed (closing_not_mem_standing _ _))]
    cases h : single? (standing group outer) with
    | none =>
      rw [collapse]
      rintro value rfl rfl
      cases h
    | some value =>
      obtain ⟨rfl, rfl⟩ := single?_standing.1 h
      rfl
  | cons piece rest ih =>
    cases piece with
    | item i => rw [collapse, ih, standing_cons, List.append_assoc, List.singleton_append]
    | opening => rw [collapse, ih, standing, List.append_assoc]; rfl
    | closing =>
      -- a parenthesis is left, so the next group has to be spliced
      have hnone : single? (standing group outer ++ .closing :: rest) = none := by
        simp [single?_eq_none_iff, List.append_eq_singleton_iff]
      rw [hnone]
      cases outer with
      | nil => exact (settle_of_none (innermost?_of_surplus _ _)).symm
      | cons next outer =>
        have hsome : innermost? (standing group (next :: outer) ++ .closing :: rest) =
            some (standing next outer, group.reverse, rest) := by
          rw [standing, List.append_assoc, List.cons_append]
          exact innermost?_of_group (closing_not_mem_standing _ _) _ _
        rw [collapse]
        simp only [settle_of_some hsome]
        cases groupValue expression group.reverse with
        | error e => rfl
        | ok value =>
          simp only [ih, standing_cons, List.append_assoc, List.singleton_append]

/-- An expression is evaluated by splicing its groups, itself put in parentheses. -/
theorem collapse_eq_settle_enclosed (expression : Text) (parts : List (Piece α)) :
    collapse expression [] [[]] (parts ++ [.closing]) =
      settle expression (.opening :: (parts ++ [.closing])) := by
  rw [collapse_eq_settle]
  have hnone : single? (standing [] [[]] ++ (parts ++ [.closing])) = none := by
    simp [single?_eq_none_iff, standing]
  rw [hnone]
  rfl

end Gerber.Expression
