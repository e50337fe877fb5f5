import Gerber.Expression

/-!
# What a group has been read from

A group consists of items: what it has been read from are the items themselves, or, for some of the
numbers, whole groups in parentheses with these values.
-/

namespace Gerber.Expression

variable {α : Type} [Scalar α]

/-- The pieces spell these items: a number can stand for a group in parentheses that has been
evaluated to it. -/
inductive Spells (expression : Text) : List (Item α) → List (Piece α) → Prop
  | nil : Spells expression [] []
  | item (i : Item α) {items : List (Item α)} {parts : List (Piece α)}
      (rest : Spells expression items parts) : Spells expression (i :: items) (.item i :: parts)
  | group {inside items : List (Item α)} {inner parts : List (Piece α)} {value : α}
      (enclosed : Spells expression inside inner)
      (evaluated : groupValue expression inside = .ok value)
      (rest : Spells expression items parts) :
      Spells expression (.number value :: items) (.opening :: (inner ++ .closing :: parts))

namespace Spells

variable {expression : Text} {items more : List (Item α)} {parts others : List (Piece α)}

theorem append (h : Spells expression items parts) (hmore : Spells expression more others) :
    Spells expression (items ++ more) (parts ++ others) := by
  induction h with
  | nil => exact hmore
  | item i _ ih => exact .item i ih
  | group enclosed evaluated _ _ ih =>
    rw [List.cons_append, List.cons_append, List.append_assoc]
    exact .group enclosed evaluated ih

/-- A group in parentheses spells its value. -/
theorem parenthesized {value : α} (h : Spells expression items parts)
    (hvalue : groupValue expression items = .ok value) :
    Spells expression [.number value] (.opening :: (parts ++ [.closing])) :=
  .group h hvalue .nil

private theorem of_parenthesized {value : α}
    (h : Spells expression [.number value] (.opening :: (parts ++ [.closing]))) :
    ∃ inside, Spells expression inside parts ∧ groupValue expression inside = .ok value := by
  generalize hall : (.opening :: (parts ++ [.closing]) : List (Piece α)) = all at h
  cases h with
  | item => cases hall
  | group enclosed evaluated rest =>
    cases rest
    have hparts := List.append_cancel_right (List.cons.inj hall).2
    subst hparts
    exact ⟨_, enclosed, evaluated⟩

private theorem collapse_append (h : Spells expression items parts) (group : List (Item α))
    (outer : List (List (Item α))) (rest : List (Piece α)) :
    collapse expression group outer (parts ++ rest) =
      collapse expression (items.reverse ++ group) outer rest := by
  induction h generalizing group outer rest with
  | nil => rfl
  | item i _ ih => rw [List.cons_append, collapse, ih, List.reverse_cons, List.append_assoc]; rfl
  | group _ evaluated _ ihinner ih =>
    rw [List.cons_append, List.append_assoc, collapse, ihinner, List.cons_append, collapse,
      List.append_nil, List.reverse_reverse, evaluated]
    simp only [ih, List.reverse_cons, List.append_assoc, List.singleton_append]

end Spells

private theorem collapse_nil_eq_ok_iff {expression : Text} {group : List (Item α)}
    {outer : List (List (Item α))} {value : α} :
    collapse expression group outer [] = .ok value ↔ group = [.number value] ∧ outer = [] := by
  constructor
  · intro h
    unfold collapse at h
    split at h
    · cases h
      exact ⟨rfl, rfl⟩
    · cases h
  · rintro ⟨rfl, rfl⟩
    rfl

/-- The pieces read so far, for the group opened last and the groups around it, each in reverse. -/
def Reads (expression : Text) : List (Item α) → List (List (Item α)) → List (Piece α) → Prop
  | group, [], parts => Spells expression group.reverse parts
  | group, next :: outer, parts =>
    ∃ before inner, parts = before ++ .opening :: inner ∧ Reads expression next outer before ∧
      Spells expression group.reverse inner

namespace Reads

variable {expression : Text} {group : List (Item α)} {outer : List (List (Item α))}
  {parts : List (Piece α)}

/-- A parenthesis opens a group with nothing in it. -/
theorem opening (h : Reads expression group outer parts) :
    Reads expression [] (group :: outer) (parts ++ [.opening]) :=
  ⟨parts, [], rfl, h, .nil⟩

/-- What spells more items can be read next. -/
theorem append (h : Reads expression group outer parts) {items : List (Item α)}
    {more : List (Piece α)} (hmore : Spells expression items more) :
    Reads expression (items.reverse ++ group) outer (parts ++ more) := by
  cases outer with
  | nil =>
    rw [Reads, List.reverse_append, List.reverse_reverse]
    exact Spells.append h hmore
  | cons next outer =>
    obtain ⟨before, inner, rfl, hbefore, hinner⟩ := h
    refine ⟨before, inner ++ more, by simp, hbefore, ?_⟩
    rw [List.reverse_append, List.reverse_reverse]
    exact hinner.append hmore

private theorem spells_of_collapse (h : Reads expression group outer parts) {rest : List (Piece α)}
    {value : α} (hvalue : collapse expression group outer rest = .ok value) :
    Spells expression [.number value] (parts ++ rest) := by
  induction rest generalizing group outer parts with
  | nil =>
    obtain ⟨rfl, rfl⟩ := collapse_nil_eq_ok_iff.1 hvalue
    rwa [List.append_nil]
  | cons piece rest ih =>
    rw [List.append_cons]
    cases piece with
    | item i => exact ih (h.append (.item i .nil)) hvalue
    | opening => exact ih h.opening hvalue
    | closing =>
      cases outer with
      | nil => cases hvalue
      | cons next outer =>
        obtain ⟨before, inner, rfl, hbefore, hinner⟩ := h
        rw [collapse] at hvalue
        cases hgroup : groupValue expression group.reverse with
        | error e => simp only [hgroup] at hvalue; cases hvalue
        | ok v =>
          simp only [hgroup] at hvalue
          have hread := hbefore.append (hinner.parenthesized hgroup)
          rw [← List.cons_append, ← List.append_assoc] at hread
          exact ih hread hvalue

end Reads

/-- An expression has a value just if its pieces spell a group with that value. -/
theorem collapse_enclosed_eq_ok_iff {expression : Text} {parts : List (Piece α)} {value : α} :
    collapse expression [] [[]] (parts ++ [.closing]) = .ok value ↔
      ∃ items, Spells expression items parts ∧ groupValue expression items = .ok value := by
  constructor
  · intro h
    have hstart : Reads expression ([] : List (Item α)) [] [] := .nil
    exact (hstart.opening.spells_of_collapse h).of_parenthesized
  · rintro ⟨items, hspells, hvalue⟩
    rw [hspells.collapse_append, collapse, List.append_nil, List.reverse_reverse, hvalue]
    rfl

end Gerber.Expression
