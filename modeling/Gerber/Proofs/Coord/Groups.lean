import Gerber.Proofs.Coord.Numerals
import Mathlib.Logic.ExistsUnique

/-!
# Bodies made of groups

A coordinate body is read if and only if it is a sequence of groups, each an axis letter with a
numeral of the format, and a final `D`.  The groups are then determined by the body, and they
determine the coordinate.  Reading goes round once for each group and ends on every text.
-/

namespace Gerber

variable {α : Type}

/-- The format takes the text as a numeral. -/
def Format.Accepts (α : Type) [Scalar α] (format : Format) (numeral : Text) : Prop :=
  ∃ value : α, format.decode numeral = .ok value

private theorem Format.Accepts.not_isAlpha [Scalar α] {format : Format} {numeral : Text}
    (h : format.Accepts α numeral) : ∀ c ∈ numeral, c.isAlpha = false := by
  obtain ⟨value, hvalue⟩ := h
  have hdigits : (signed numeral).2.isDigits = true := by
    by_contra hnot
    rw [Bool.not_eq_true] at hnot
    simp [decode, hnot] at hvalue
  have hall {digits : Text} (h : digits.isDigits = true) : ∀ c ∈ digits, c.isAlpha = false := by
    intro c hc
    simp only [Text.isDigits, Bool.and_eq_true, List.all_eq_true] at h
    exact Text.not_isAlpha_of_isDigit (h.2 c hc)
  unfold signed at hdigits
  split at hdigits
  · exact List.forall_mem_cons.mpr ⟨rfl, hall hdigits⟩
  · exact List.forall_mem_cons.mpr ⟨rfl, hall hdigits⟩
  · exact hall hdigits

namespace Coord

/-- An axis with a numeral for it. -/
structure Group where
  axis : Axis
  numeral : Text
deriving DecidableEq

def Group.text (g : Group) : Text := g.axis.letter :: g.numeral

/-- The body that consists of groups and a final `D`. -/
def bodyOf (gs : List Group) : Text := gs.flatMap Group.text ++ ['D']

/-- The numeral of the last group of an axis. -/
def latest? (axis : Axis) (gs : List Group) : Option Text :=
  (gs.reverse.find? fun g => g.axis = axis).map Group.numeral

/-- What an axis is without a group: modal axes go on from the previous coordinate. -/
def start [Scalar α] (previous : Option (Coord α)) (axis : Axis) : α :=
  if axis.isModal then previous.elim Scalar.zero (·.get axis) else Scalar.zero

/-- The body consists of these groups, and they make up the coordinate. -/
structure Consists [Scalar α] (format : Format) (previous : Option (Coord α)) (body : Text)
    (c : Coord α) (gs : List Group) : Prop where
  body_eq : body = bodyOf gs
  accepts : ∀ g ∈ gs, format.Accepts α g.numeral
  shows : ∀ axis, Shows format (latest? axis gs) (start previous axis) (c.get axis)
  seq_eq : c.seq = previous.elim 1 fun p => p.seq + 1

private theorem isAlpha_letter (axis : Axis) : axis.letter.isAlpha = true := by
  cases axis <;> rfl

private theorem cut_group {numeral : Text} (hnumeral : ∀ c ∈ numeral, c.isAlpha = false)
    (gs : List Group) :
    (numeral ++ gs.flatMap Group.text).takeWhile (fun c => !c.isAlpha) = numeral ∧
      (numeral ++ gs.flatMap Group.text).dropWhile (fun c => !c.isAlpha) =
        gs.flatMap Group.text := by
  have hall : ∀ c ∈ numeral, (!c.isAlpha) = true := by
    intro c hc
    simp [hnumeral c hc]
  rw [List.takeWhile_append_of_pos hall, List.dropWhile_append_of_pos hall]
  cases gs with
  | nil => simp
  | cons g gs => simp [Group.text, isAlpha_letter]

private theorem latest?_cons (axis : Axis) (g : Group) (gs : List Group) :
    latest? axis (g :: gs) =
      (latest? axis gs).or (if g.axis = axis then some g.numeral else none) := by
  rw [latest?, List.reverse_cons, List.find?_append, Option.map_or]
  by_cases h : g.axis = axis <;> simp [latest?, h]

private theorem letter_injective {axis other : Axis} (h : axis.letter = other.letter) :
    axis = other := by
  cases axis <;> cases other <;> first | rfl | exact absurd h (by decide)

private theorem numeral?_text (axis : Axis) {gs : List Group}
    (hgs : ∀ g ∈ gs, ∀ c ∈ g.numeral, c.isAlpha = false) :
    numeral? axis (gs.flatMap Group.text) = latest? axis gs := by
  induction gs with
  | nil => simp [numeral?, lastNumeral, groups, latest?]
  | cons g gs ih =>
    obtain ⟨hhead, htail⟩ := List.forall_mem_cons.mp hgs
    obtain ⟨htake, hdrop⟩ := cut_group hhead gs
    rw [List.flatMap_cons, Group.text, List.cons_append, numeral?_cons, htake, hdrop, ih htail,
      latest?_cons]
    have hletter : g.axis.letter = axis.letter ↔ g.axis = axis :=
      ⟨letter_injective, congrArg Axis.letter⟩
    simp only [hletter]

private theorem eq_of_text {gs gs' : List Group}
    (hgs : ∀ g ∈ gs, ∀ c ∈ g.numeral, c.isAlpha = false)
    (hgs' : ∀ g ∈ gs', ∀ c ∈ g.numeral, c.isAlpha = false)
    (h : gs.flatMap Group.text = gs'.flatMap Group.text) : gs = gs' := by
  induction gs generalizing gs' with
  | nil =>
    cases gs' with
    | nil => rfl
    | cons g' gs' => simp [Group.text] at h
  | cons g gs ih =>
    cases gs' with
    | nil => simp [Group.text] at h
    | cons g' gs' =>
      obtain ⟨hhead, htail⟩ := List.forall_mem_cons.mp hgs
      obtain ⟨hhead', htail'⟩ := List.forall_mem_cons.mp hgs'
      simp only [List.flatMap_cons, Group.text, List.cons_append, List.cons.injEq] at h
      have htake := congrArg (List.takeWhile fun c => !c.isAlpha) h.2
      have hdrop := congrArg (List.dropWhile fun c => !c.isAlpha) h.2
      rw [(cut_group hhead gs).1, (cut_group hhead' gs').1] at htake
      rw [(cut_group hhead gs).2, (cut_group hhead' gs').2] at hdrop
      have hg : g = g' := by
        cases g
        cases g'
        cases letter_injective h.1
        cases htake
        rfl
      rw [hg, ih htail htail' hdrop]

private theorem setAxis?_letter (c : Coord α) (axis : Axis) (value : α) :
    ∃ c', c.setAxis? axis.letter value = some c' := by
  cases axis <;> exact ⟨_, rfl⟩

private theorem exists_axis_of_setAxis? {c c' : Coord α} {letter : Char} {value : α}
    (h : c.setAxis? letter value = some c') : ∃ axis : Axis, axis.letter = letter := by
  unfold setAxis? at h
  split at h
  · exact ⟨.x, by simp [Axis.letter, *]⟩
  split at h
  · exact ⟨.y, by simp [Axis.letter, *]⟩
  split at h
  · exact ⟨.i, by simp [Axis.letter, *]⟩
  split at h
  · exact ⟨.j, by simp [Axis.letter, *]⟩
  cases h

variable [Scalar α] {format : Format} {body t : Text}

private theorem exists_readAxes {gs : List Group} (hgs : ∀ g ∈ gs, format.Accepts α g.numeral)
    (c : Coord α) : ∃ c', readAxes format body c (gs.flatMap Group.text) = .ok c' := by
  induction gs generalizing c with
  | nil => exact ⟨c, by simp [readAxes]⟩
  | cons g gs ih =>
    obtain ⟨hhead, htail⟩ := List.forall_mem_cons.mp hgs
    obtain ⟨htake, hdrop⟩ := cut_group hhead.not_isAlpha gs
    obtain ⟨value, hvalue⟩ := hhead
    obtain ⟨mid, hmid⟩ := setAxis?_letter c g.axis value
    obtain ⟨c', hc'⟩ := ih htail mid
    refine ⟨c', ?_⟩
    rw [List.flatMap_cons, Group.text, List.cons_append, readAxes, htake, hdrop]
    simp only [hvalue, hmid, hc']

private theorem exists_groups {c c' : Coord α} (h : readAxes format body c t = .ok c') :
    ∃ gs : List Group, t = gs.flatMap Group.text ∧ ∀ g ∈ gs, format.Accepts α g.numeral := by
  induction t using groups.induct generalizing c with
  | case1 => exact ⟨[], rfl, List.forall_mem_nil _⟩
  | case2 letter t ih =>
    rw [readAxes] at h
    cases hvalue : (format.decode (t.takeWhile fun c => !c.isAlpha) : Except Fault α) with
    | error e => simp [hvalue] at h
    | ok value =>
      cases hmid : c.setAxis? letter value with
      | none => simp [hvalue, hmid] at h
      | some mid =>
        simp only [hvalue, hmid] at h
        obtain ⟨gs, hrest, hgs⟩ := ih h
        obtain ⟨axis, rfl⟩ := exists_axis_of_setAxis? hmid
        refine ⟨⟨axis, _⟩ :: gs, ?_, List.forall_mem_cons.mpr ⟨⟨value, hvalue⟩, hgs⟩⟩
        rw [List.flatMap_cons, Group.text, ← hrest, List.cons_append,
          List.takeWhile_append_dropWhile]

theorem Shows.unique {numeral : Option Text} {default value other : α}
    (h : Shows format numeral default value) (h' : Shows format numeral default other) :
    value = other := by
  cases numeral with
  | none => exact h.trans h'.symm
  | some n => exact Except.ok.inj (h.symm.trans h')

/-- Groups make up one coordinate only. -/
theorem Consists.unique {previous : Option (Coord α)} {c c' : Coord α} {gs : List Group}
    (h : Consists format previous body c gs) (h' : Consists format previous body c' gs) :
    c = c' := by
  have haxis (axis : Axis) : c.get axis = c'.get axis := (h.shows axis).unique (h'.shows axis)
  have hseq : c.seq = c'.seq := h.seq_eq.trans h'.seq_eq.symm
  cases c
  cases c'
  cases haxis .x
  cases haxis .y
  cases haxis .i
  cases haxis .j
  cases hseq
  rfl

private theorem before?_bodyOf (gs : List Group) :
    (bodyOf gs).before? ['D'] = some (gs.flatMap Group.text) :=
  List.isSuffixOf?_eq_some_iff_append_eq.mpr rfl

/-- Reading that is given up after a number of rounds.  Each round takes one letter and what
follows it up to the next letter. -/
def rounds (format : Format) (body : Text) :
    Nat → Coord α → Text → Option (Except Fault (Coord α))
  | _, c, [] => some (.ok c)
  | 0, _, _ :: _ => none
  | n + 1, c, letter :: t =>
    match format.decode (t.takeWhile fun c => !c.isAlpha) with
    | .error e => some (.error e)
    | .ok value =>
      match c.setAxis? letter value with
      | some c => rounds format body n c (t.dropWhile fun c => !c.isAlpha)
      | none => some (.error (.coordinate (.unexpectedLetter letter body)))

/-- Reading a body in at most as many rounds. -/
def ofBodyWithin (n : Nat) (format : Format) (previous : Option (Coord α)) (body : Text) :
    Option (Except Fault (Coord α)) :=
  match body.before? ['D'] with
  | none => some (.error (.coordinate (.noEnd body)))
  | some axes => rounds format body n (following previous) axes

private theorem rounds_eq_some {n : Nat} (h : t.length ≤ n) (c : Coord α) :
    rounds format body n c t = some (readAxes format body c t) := by
  induction n generalizing c t with
  | zero =>
    obtain rfl := List.eq_nil_of_length_eq_zero (Nat.le_zero.mp h)
    simp [rounds, readAxes]
  | succ n ih =>
    cases t with
    | nil => simp [rounds, readAxes]
    | cons letter t =>
      have hdrop : (t.dropWhile fun c => !c.isAlpha).length ≤ n :=
        Nat.le_trans (List.dropWhile_sublist _).length_le (Nat.le_of_succ_le_succ h)
      rw [rounds, readAxes]
      cases (format.decode (t.takeWhile fun c => !c.isAlpha) : Except Fault α) with
      | error e => rfl
      | ok value =>
        cases hset : c.setAxis? letter value with
        | none => simp only [hset]
        | some mid => simp only [hset, ih hdrop]

private theorem get_following (previous : Option (Coord α)) (axis : Axis) :
    (following previous).get axis = start previous axis := by
  cases previous <;> cases axis <;> rfl

private theorem seq_following (previous : Option (Coord α)) :
    (following previous).seq = previous.elim 1 fun p => p.seq + 1 := by
  cases previous <;> rfl

private theorem consists_of_ofBody {previous : Option (Coord α)} {c : Coord α} {gs : List Group}
    (hgs : ∀ g ∈ gs, format.Accepts α g.numeral)
    (h : ofBody format previous (bodyOf gs) = .ok c) :
    Consists format previous (bodyOf gs) c gs := by
  rw [ofBody, before?_bodyOf] at h
  change readAxes format (bodyOf gs) (following previous) _ = .ok c at h
  have hshows (axis : Axis) := shows_of_readAxes h axis
  refine ⟨rfl, hgs, fun axis => ?_, (hshows .x).2.trans (seq_following previous)⟩
  have hletters : ∀ g ∈ gs, ∀ c ∈ g.numeral, c.isAlpha = false := by
    intro g hg
    exact (hgs g hg).not_isAlpha
  rw [← numeral?_text axis hletters, ← get_following]
  exact (hshows axis).1

private theorem exists_ofBody {gs : List Group} (hgs : ∀ g ∈ gs, format.Accepts α g.numeral)
    (previous : Option (Coord α)) : ∃ c, ofBody format previous (bodyOf gs) = .ok c := by
  rw [ofBody, before?_bodyOf]
  exact exists_readAxes hgs (following previous)

private theorem exists_groups_of_ofBody {previous : Option (Coord α)} {c : Coord α}
    (h : ofBody format previous body = .ok c) :
    ∃ gs : List Group, body = bodyOf gs ∧ ∀ g ∈ gs, format.Accepts α g.numeral := by
  unfold ofBody at h
  cases hbefore : body.before? ['D'] with
  | none => simp [hbefore] at h
  | some axes =>
    simp only [hbefore] at h
    obtain ⟨gs, rfl, hgs⟩ := exists_groups h
    exact ⟨gs, (List.isSuffixOf?_eq_some_iff_append_eq.mp hbefore).symm, hgs⟩

private theorem eq_of_bodyOf {gs gs' : List Group} (hgs : ∀ g ∈ gs, format.Accepts α g.numeral)
    (hgs' : ∀ g ∈ gs', format.Accepts α g.numeral) (h : bodyOf gs = bodyOf gs') : gs = gs' :=
  eq_of_text (fun g hg => (hgs g hg).not_isAlpha) (fun g hg => (hgs' g hg).not_isAlpha)
    (List.append_cancel_right h)

/-- A body is read if and only if it consists of groups.  A coordinate is read from it if and only
if it is the one that its groups, of which there is one choice only, make up.  Reading ends after at
most as many rounds as the body has characters. -/
theorem reads_groups (format : Format) (previous : Option (Coord α)) (body : Text) :
    ((∃ c, ofBody format previous body = .ok c) ↔
      ∃ gs : List Group, body = bodyOf gs ∧ ∀ g ∈ gs, format.Accepts α g.numeral) ∧
    (∀ c, ofBody format previous body = .ok c ↔ ∃! gs, Consists format previous body c gs) ∧
    ofBodyWithin body.length format previous body = some (ofBody format previous body) := by
  refine ⟨⟨?_, ?_⟩, fun c => ⟨?_, ?_⟩, ?_⟩
  · rintro ⟨c, h⟩
    exact exists_groups_of_ofBody h
  · rintro ⟨gs, rfl, hgs⟩
    exact exists_ofBody hgs previous
  · intro h
    obtain ⟨gs, rfl, hgs⟩ := exists_groups_of_ofBody h
    refine ⟨gs, consists_of_ofBody hgs h, fun gs' hgs' => ?_⟩
    exact (eq_of_bodyOf hgs hgs'.accepts hgs'.body_eq).symm
  · rintro ⟨gs, hgs, -⟩
    obtain rfl := hgs.body_eq
    obtain ⟨c', hc'⟩ := exists_ofBody hgs.accepts previous
    have hother := consists_of_ofBody hgs.accepts hc'
    rw [hc', hgs.unique hother]
  · unfold ofBodyWithin ofBody
    cases hbefore : body.before? ['D'] with
    | none => rfl
    | some axes =>
      have hbody : axes ++ ['D'] = body := List.isSuffixOf?_eq_some_iff_append_eq.mp hbefore
      have hlength : axes.length ≤ body.length := by
        rw [← hbody, List.length_append]
        exact Nat.le_add_right _ _
      exact rounds_eq_some hlength (following previous)

end Coord

end Gerber
