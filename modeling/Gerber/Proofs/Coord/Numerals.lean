import Gerber.Coord.Body
import Mathlib.Data.List.Basic

/-!
# Numerals of a coordinate body

A body writes a sequence of groups, each an axis letter and a numeral.  Reading a body sets each
axis to the last numeral that is written for it and leaves the other axes as they were.
-/

namespace Gerber

variable {α : Type}

/-- The four axes of a coordinate: two of places, two of arc offsets. -/
inductive Axis where
  | x
  | y
  | i
  | j
deriving DecidableEq

def Axis.letter : Axis → Char
  | x => 'X'
  | y => 'Y'
  | i => 'I'
  | j => 'J'

/-- Whether an axis keeps its value from one coordinate to the next. -/
def Axis.isModal : Axis → Bool
  | x => true
  | y => true
  | i => false
  | j => false

namespace Coord

def get (c : Coord α) : Axis → α
  | .x => c.x
  | .y => c.y
  | .i => c.i
  | .j => c.j

/-- The groups of a letter and a numeral in a text; a numeral goes up to the next letter. -/
def groups : Text → List (Char × Text)
  | [] => []
  | letter :: t =>
    (letter, t.takeWhile fun c => !c.isAlpha) :: groups (t.dropWhile fun c => !c.isAlpha)
termination_by t => t.length
decreasing_by exact Nat.lt_succ_of_le (List.dropWhile_sublist _).length_le

/-- The last numeral that is written for an axis in a sequence of bodies. -/
def lastNumeral (axis : Axis) (bodies : List Text) : Option Text :=
  (bodies.flatMap groups).reverse.findSome? fun group =>
    if group.1 = axis.letter then some group.2 else none

/-- The value is what the numeral writes, or the default if there is no numeral. -/
def Shows [Scalar α] (format : Format) (numeral : Option Text) (default value : α) : Prop :=
  match numeral with
  | some n => format.decode n = .ok value
  | none => value = default

theorem lastNumeral_append (axis : Axis) (bodies later : List Text) :
    lastNumeral axis (bodies ++ later) =
      (lastNumeral axis later).or (lastNumeral axis bodies) := by
  rw [lastNumeral, List.flatMap_append, List.reverse_append, List.findSome?_append]
  rfl

variable [Scalar α] {format : Format}

theorem Shows.or {earlier later : Option Text} {default mid value : α}
    (h : Shows format earlier default mid) (h' : Shows format later mid value) :
    Shows format (later.or earlier) default value := by
  cases later with
  | some n => exact h'
  | none =>
    obtain rfl : value = mid := h'
    exact h

omit [Scalar α] in
private theorem get_of_setAxis? {c c' : Coord α} {letter : Char} {value : α}
    (h : c.setAxis? letter value = some c') :
    (∀ axis : Axis, c'.get axis = if letter = axis.letter then value else c.get axis) ∧
      c'.seq = c.seq := by
  unfold setAxis? at h
  split at h
  case isTrue hl =>
    cases h
    exact ⟨fun axis => by subst hl; cases axis <;> rfl, rfl⟩
  split at h
  case isTrue hl =>
    cases h
    exact ⟨fun axis => by subst hl; cases axis <;> rfl, rfl⟩
  split at h
  case isTrue hl =>
    cases h
    exact ⟨fun axis => by subst hl; cases axis <;> rfl, rfl⟩
  split at h
  case isTrue hl =>
    cases h
    exact ⟨fun axis => by subst hl; cases axis <;> rfl, rfl⟩
  cases h

def numeral? (axis : Axis) (t : Text) : Option Text := lastNumeral axis [t]

theorem numeral?_cons (axis : Axis) (letter : Char) (t : Text) :
    numeral? axis (letter :: t) =
      (numeral? axis (t.dropWhile fun c => !c.isAlpha)).or
        (if letter = axis.letter then some (t.takeWhile fun c => !c.isAlpha) else none) := by
  simp only [numeral?, lastNumeral, List.flatMap_cons, List.flatMap_nil, List.append_nil]
  rw [groups, List.reverse_cons, List.findSome?_append]
  simp

theorem shows_of_readAxes {body t : Text} {c c' : Coord α}
    (h : readAxes format body c t = .ok c') (axis : Axis) :
    Shows format (numeral? axis t) (c.get axis) (c'.get axis) ∧ c'.seq = c.seq := by
  induction t using groups.induct generalizing c with
  | case1 =>
    rw [readAxes] at h
    cases h
    exact ⟨by simp [numeral?, lastNumeral, groups, Shows], rfl⟩
  | case2 letter t ih =>
    rw [readAxes] at h
    cases hd : (format.decode (t.takeWhile fun c => !c.isAlpha) : Except Fault α) with
    | error e => simp [hd] at h
    | ok value =>
      cases hs : c.setAxis? letter value with
      | none => simp [hd, hs] at h
      | some mid =>
        simp only [hd, hs] at h
        obtain ⟨hset, hmid⟩ := get_of_setAxis? hs
        obtain ⟨hrest, hseq⟩ := ih h
        refine ⟨?_, hseq.trans hmid⟩
        rw [numeral?_cons]
        refine Shows.or ?_ hrest
        rw [hset axis]
        split
        · exact hd
        · rfl

omit [Scalar α] in
private theorem takeWhile_concat {p : Char → Bool} {c : Char} (hc : p c = false) (t : Text) :
    (t ++ [c]).takeWhile p = t.takeWhile p ∧ (t ++ [c]).dropWhile p = t.dropWhile p ++ [c] := by
  induction t with
  | nil => simp [hc]
  | cons head t ih => by_cases hhead : p head <;> simp [hhead, ih]

omit [Scalar α] in
private theorem numeral?_concat (axis : Axis) (t : Text) :
    numeral? axis (t ++ ['D']) = numeral? axis t := by
  have hnil : numeral? axis [] = none := by
    simp only [numeral?, lastNumeral, groups, List.flatMap_cons, List.flatMap_nil,
      List.append_nil, List.reverse_nil, List.findSome?_nil]
  induction t using groups.induct with
  | case1 =>
    rw [List.nil_append, numeral?_cons, List.dropWhile_nil, hnil]
    cases axis <;> rfl
  | case2 letter t ih =>
    obtain ⟨htake, hdrop⟩ :=
      @takeWhile_concat (fun c => !c.isAlpha) 'D' (by decide) t
    rw [List.cons_append, numeral?_cons, numeral?_cons, htake, hdrop, ih]

/-- The coordinate that a body writes: modal axes go on from the previous coordinate, offsets from
zero, and the count of coordinates goes up by one. -/
theorem shows_of_ofBody {body : Text} {last c : Coord α}
    (h : ofBody format (some last) body = .ok c) :
    (∀ axis : Axis, Shows format (numeral? axis body)
      (if axis.isModal then last.get axis else Scalar.zero) (c.get axis)) ∧
    c.seq = last.seq + 1 := by
  unfold ofBody at h
  cases hb : body.before? ['D'] with
  | none => simp [hb] at h
  | some axes =>
    simp only [hb] at h
    have hbody : axes ++ ['D'] = body := List.isSuffixOf?_eq_some_iff_append_eq.mp hb
    refine ⟨fun axis => ?_, (shows_of_readAxes h .x).2⟩
    have hstart : (following (some last)).get axis =
        if axis.isModal then last.get axis else Scalar.zero := by
      cases axis <;> rfl
    rw [← hbody, numeral?_concat, ← hstart]
    exact (shows_of_readAxes h axis).1

end Coord

end Gerber
