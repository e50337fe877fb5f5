import Gerber.ApertureMacro
import Gerber.Proofs.Decimal.Values
import Gerber.Proofs.Except

/-!
# Modifiers by position

A primitive checks how many modifiers it was given and then takes each value from its position.
None of these positions is beyond the last value, not even for an outline, which is told by one of
the values how many others there are.
-/

namespace Gerber.Figure

open Decimal

/-- What comes of taking values from their positions.  It is a fault or a result; there is neither
if a position is beyond the last value. -/
abbrev Reading (β : Type) : Type := ExceptT ApertureFault Option β

section

variable (values : List Float)

def need (primitive : Primitive) (needed : Nat) : Reading Unit :=
  if values.length < needed then throw (.missingModifiers primitive needed values.length)
  else pure ()

/-- The value at a position. -/
def valueAt (k : Nat) : Reading Float := ExceptT.lift values[k]?

def slice (start stop : Nat) : Reading (List Float) :=
  if start ≤ stop ∧ stop ≤ values.length then pure ((values.take stop).drop start)
  else ExceptT.lift none

/-- The place whose axes are the values at a position and the next one. -/
def placeAt (scale : Float) (k : Nat) : Reading (Vec Float) := do
  let x ← valueAt values k
  let y ← valueAt values (k + 1)
  pure ⟨x * scale, y * scale⟩

end

def pairs (scale : Float) : List Float → List (Vec Float)
  | x :: y :: rest => ⟨x * scale, y * scale⟩ :: pairs scale rest
  | _ => []

/-- The number of vertices that an outline is told, if it is finite, at least one, whole, and no
more than there are values. -/
def vertices? (count : Float) (given : Nat) : Option Nat :=
  match rational? count with
  | none => none
  | some q => if q < 1 ∨ q.den ≠ 1 ∨ (given : ℚ) < q then none else some q.num.toNat

/-- The figure of a primitive whose modifiers have the given values, each taken from its
position. -/
def byPosition (primitive : Primitive) (values : List Float) (scale : Float) :
    Reading (Figure Float) :=
  match primitive with
  | .circle => do
    need values .circle 4
    let exposure ← valueAt values 0
    let diameter ← valueAt values 1
    let center ← placeAt values scale 2
    pure (.circle (isOn exposure) (diameter * scale) center (values[4]?.getD Scalar.zero))
  | .vectorLine => do
    need values .vectorLine 7
    let exposure ← valueAt values 0
    let width ← valueAt values 1
    let start ← placeAt values scale 2
    let finish ← placeAt values scale 4
    let rotation ← valueAt values 6
    pure (.vectorLine (isOn exposure) (width * scale) start finish rotation)
  | .centerLine => do
    need values .centerLine 6
    let exposure ← valueAt values 0
    let width ← valueAt values 1
    let height ← valueAt values 2
    let center ← placeAt values scale 3
    let rotation ← valueAt values 5
    pure (.centerLine (isOn exposure) (width * scale) (height * scale) center rotation)
  | .outline => do
    need values .outline 2
    let count ← valueAt values 1
    match vertices? count values.length with
    | none => throw (.outlineVertices (Scalar.shown count) values.length)
    | some n =>
      let coordinates := 2 * (n + 1)
      need values .outline (2 + coordinates + 1)
      let exposure ← valueAt values 0
      let axes ← slice values 2 (2 + coordinates)
      let rotation ← valueAt values (2 + coordinates)
      pure (.outline (isOn exposure) (pairs scale axes) rotation)
  | .polygon => do
    need values .polygon 6
    let exposure ← valueAt values 0
    let vertices ← valueAt values 1
    let center ← placeAt values scale 2
    let diameter ← valueAt values 4
    let rotation ← valueAt values 5
    pure (.polygon (isOn exposure) (Scalar.count vertices) center (diameter * scale) rotation)
  | .moire => do
    need values .moire 9
    let center ← placeAt values scale 0
    let outerDiameter ← valueAt values 2
    let ringThickness ← valueAt values 3
    let ringGap ← valueAt values 4
    let maxRings ← valueAt values 5
    let crosshairThickness ← valueAt values 6
    let crosshairLength ← valueAt values 7
    let rotation ← valueAt values 8
    pure (.moire center (outerDiameter * scale) (ringThickness * scale) (ringGap * scale)
      (Scalar.count maxRings) (crosshairThickness * scale) (crosshairLength * scale) rotation)
  | .thermal => do
    need values .thermal 6
    let center ← placeAt values scale 0
    let outerDiameter ← valueAt values 2
    let innerDiameter ← valueAt values 3
    let gap ← valueAt values 4
    let rotation ← valueAt values 5
    pure (.thermal center (outerDiameter * scale) (innerDiameter * scale) (gap * scale) rotation)

private theorem vertices?_eq_some_iff {count : Float} {given n : Nat} :
    vertices? count given = some n ↔ rational? count = some (n : ℚ) ∧ 1 ≤ n ∧ n ≤ given := by
  unfold vertices?
  cases rational? count with
  | none => simp
  | some q =>
    simp only [Option.ite_none_left_eq_some, Option.some.injEq]
    constructor
    · rintro ⟨hguard, rfl⟩
      have hone : 1 ≤ q := not_lt.mp fun h => hguard (.inl h)
      have hden : q.den = 1 := not_not.mp fun h => hguard (.inr (.inl h))
      have hgiven : q ≤ given := not_lt.mp fun h => hguard (.inr (.inr h))
      have hnum : (q.num : ℚ) = q := Rat.coe_int_num_of_den_eq_one hden
      have hpos : 1 ≤ q.num := by
        rw [← hnum] at hone
        exact_mod_cast hone
      have hq : q = (q.num.toNat : ℚ) := by
        rw [← hnum]
        exact_mod_cast (Int.toNat_of_nonneg (by omega)).symm
      refine ⟨hq, by omega, ?_⟩
      rw [hq] at hgiven
      exact_mod_cast hgiven
    · rintro ⟨rfl, hone, hgiven⟩
      have hone' : ¬ n = 0 := Nat.ne_of_gt hone
      simp [hone', hgiven]

private theorem points_eq_pairs (scale : Float) (k : Nat) (values : List Float) :
    points scale k values = pairs scale (values.take (2 * k)) := by
  induction k generalizing values with
  | zero => rfl
  | succ k ih =>
    match values with
    | [] => rfl
    | [x] => rfl
    | x :: y :: rest =>
      rw [points, ih]
      rfl

private theorem points_eq_ofFn {α : Type} [Scalar α] (scale : α) {k : Nat} {values : List α}
    (h : 2 * k ≤ values.length) :
    points scale k values = List.ofFn fun i : Fin k =>
      (⟨values[2 * i.val] * scale, values[2 * i.val + 1] * scale⟩ : Vec α) := by
  induction k generalizing values with
  | zero => rfl
  | succ k ih =>
    match values, h with
    | x :: y :: rest, h =>
      have hrest : 2 * k ≤ rest.length := by
        simp only [List.length_cons] at h
        omega
      simp [points, ih hrest, List.ofFn_succ, Nat.mul_add]

variable {values : List Float} {scale : Float} {f : Figure Float}

private theorem need_of_le {primitive : Primitive} {needed : Nat} (h : needed ≤ values.length) :
    need values primitive needed = pure () :=
  if_neg (Nat.not_lt.mpr h)

private theorem need_of_lt {primitive : Primitive} {needed : Nat} (h : values.length < needed) :
    need values primitive needed = throw (.missingModifiers primitive needed values.length) :=
  if_pos h

private theorem valueAt_of_lt {k : Nat} (h : k < values.length) :
    valueAt values k = pure values[k] := by
  rw [valueAt, List.getElem?_eq_getElem h]
  rfl

private theorem slice_of_le {start stop : Nat} (hstart : start ≤ stop)
    (hstop : stop ≤ values.length) :
    slice values start stop = pure ((values.take stop).drop start) :=
  if_pos ⟨hstart, hstop⟩

def outlineOf (values : List Float) (scale : Float) (n : Nat) (h : 2 * n + 5 ≤ values.length) :
    Figure Float :=
  .outline (isOn values[0])
    (List.ofFn fun k : Fin (n + 1) =>
      ⟨values[2 * k.val + 2] * scale, values[2 * k.val + 3] * scale⟩)
    values[2 * n + 4]

private theorem outlineOf_eq {exposure count : Float} {rest : List Float} {n : Nat}
    (h : 2 * n + 5 ≤ (exposure :: count :: rest).length) (hlast : 2 * (n + 1) < rest.length) :
    outlineOf (exposure :: count :: rest) scale n h =
      .outline (isOn exposure) (points scale (n + 1) rest) rest[2 * (n + 1)] := by
  rw [points_eq_ofFn scale (Nat.le_of_lt hlast)]
  simp [outlineOf, Nat.mul_add]

private theorem ofOutline_eq (exposure count : Float) (rest : List Float) (scale : Float) :
    ofOutline (exposure :: count :: rest) scale =
      match vertices? count (rest.length + 2) with
      | none => .error (.outlineVertices (Scalar.shown count) (rest.length + 2))
      | some n =>
        if h : 2 * n + 5 ≤ rest.length + 2 then
          .ok (outlineOf (exposure :: count :: rest) scale n h)
        else .error (.missingModifiers .outline (2 + 2 * (n + 1) + 1) (rest.length + 2)) := by
  have hnat (n : Nat) : Scalar.nat? count = some n ↔ rational? count = some (n : ℚ) :=
    nat?_eq_some_iff
  cases hvertices : vertices? count (rest.length + 2) with
  | none =>
    simp only [ofOutline, List.length_cons]
    cases hcount : Scalar.nat? count with
    | none => rfl
    | some n =>
      have hout : n < 1 ∨ rest.length + 1 + 1 < n := by
        by_contra hin
        have hsome := vertices?_eq_some_iff.mpr
          ⟨(hnat n).mp hcount, show 1 ≤ n by omega, show n ≤ rest.length + 2 by omega⟩
        rw [hvertices] at hsome
        cases hsome
      exact if_pos hout
  | some n =>
    obtain ⟨hcount, hone, hgiven⟩ := vertices?_eq_some_iff.mp hvertices
    have hin : ¬ (n < 1 ∨ rest.length + 1 + 1 < n) := by omega
    simp only [ofOutline, List.length_cons, (hnat n).mpr hcount, if_neg hin]
    by_cases h : 2 * n + 5 ≤ rest.length + 2
    · have hlast : 2 * (n + 1) < rest.length := by omega
      rw [dif_pos h, List.drop_eq_getElem_cons hlast, outlineOf_eq h hlast]
    · rw [dif_neg h, List.drop_eq_nil_of_le (by omega)]

private theorem run_byPosition_outline (values : List Float) (scale : Float) :
    (byPosition .outline values scale).run = some (ofOutline values scale) := by
  match values with
  | [] => rfl
  | [_] => rfl
  | exposure :: count :: rest =>
    rw [ofOutline_eq]
    have htwo : need (exposure :: count :: rest) .outline 2 = pure () := need_of_le (by simp)
    have hcount : valueAt (exposure :: count :: rest) 1 = pure count := rfl
    simp only [byPosition, htwo, hcount, pure_bind, List.length_cons]
    cases vertices? count (rest.length + 2) with
    | none => rfl
    | some n =>
      by_cases h : 2 * n + 5 ≤ rest.length + 2
      · have hlast : 2 * (n + 1) < rest.length := by omega
        have hall : need (exposure :: count :: rest) .outline (2 + 2 * (n + 1) + 1) = pure () := by
          apply need_of_le
          simp only [List.length_cons]
          omega
        have hexposure : valueAt (exposure :: count :: rest) 0 = pure exposure := rfl
        have haxes : slice (exposure :: count :: rest) 2 (2 + 2 * (n + 1)) =
            pure (rest.take (2 * (n + 1))) := by
          rw [slice_of_le (by omega) (by simp only [List.length_cons]; omega), Nat.add_comm 2]
          rfl
        have hrotation : valueAt (exposure :: count :: rest) (2 + 2 * (n + 1)) =
            pure rest[2 * (n + 1)] := by
          rw [valueAt_of_lt (by simp only [List.length_cons]; omega)]
          simp [Nat.add_comm 2]
        simp only [hall, hexposure, haxes, hrotation, pure_bind, dif_pos h, outlineOf_eq h hlast,
          points_eq_pairs]
        rfl
      · have hshort : need (exposure :: count :: rest) .outline (2 + 2 * (n + 1) + 1) =
            throw (.missingModifiers .outline (2 + 2 * (n + 1) + 1) (rest.length + 2)) := by
          apply need_of_lt
          simp only [List.length_cons]
          omega
        simp only [hshort, dif_neg h]
        rfl

private theorem run_byPosition (primitive : Primitive) (values : List Float) (scale : Float) :
    (byPosition primitive values scale).run = some (ofValues primitive values scale) := by
  -- A list is either too short, by one value or more, or as long as it has to be.
  cases primitive with
  | circle =>
    match values with
    | [] | [_] | [_, _] | [_, _, _] => rfl
    -- The rotation is the only value that is not asked for.
    | [_, _, _, _] => rfl
    | _ :: _ :: _ :: _ :: _ :: _ => rfl
  | vectorLine =>
    match values with
    | [] | [_] | [_, _] | [_, _, _] | [_, _, _, _] | [_, _, _, _, _] | [_, _, _, _, _, _] => rfl
    | _ :: _ :: _ :: _ :: _ :: _ :: _ :: _ => rfl
  | centerLine =>
    match values with
    | [] | [_] | [_, _] | [_, _, _] | [_, _, _, _] | [_, _, _, _, _] => rfl
    | _ :: _ :: _ :: _ :: _ :: _ :: _ => rfl
  | outline => exact run_byPosition_outline values scale
  | polygon =>
    match values with
    | [] | [_] | [_, _] | [_, _, _] | [_, _, _, _] | [_, _, _, _, _] => rfl
    | _ :: _ :: _ :: _ :: _ :: _ :: _ => rfl
  | moire =>
    match values with
    | [] | [_] | [_, _] | [_, _, _] | [_, _, _, _] | [_, _, _, _, _] | [_, _, _, _, _, _]
      | [_, _, _, _, _, _, _] | [_, _, _, _, _, _, _, _] => rfl
    | _ :: _ :: _ :: _ :: _ :: _ :: _ :: _ :: _ :: _ => rfl
  | thermal =>
    match values with
    | [] | [_] | [_, _] | [_, _, _] | [_, _, _, _] | [_, _, _, _, _] => rfl
    | _ :: _ :: _ :: _ :: _ :: _ :: _ => rfl

private theorem ofOutline_eq_ok_iff :
    ofOutline values scale = .ok f ↔
      ∃ n, ∃ h : 2 * n + 5 ≤ values.length,
        1 ≤ n ∧ rational? values[1] = some (n : ℚ) ∧ f = outlineOf values scale n h := by
  match values with
  | [] => simp [ofOutline]
  | [_] => simp [ofOutline]
  | exposure :: count :: rest =>
    rw [ofOutline_eq]
    constructor
    · intro hok
      cases hvertices : vertices? count (rest.length + 2) with
      | none =>
        rw [hvertices] at hok
        cases hok
      | some n =>
        rw [hvertices] at hok
        obtain ⟨hcount, hone, -⟩ := vertices?_eq_some_iff.mp hvertices
        by_cases h : 2 * n + 5 ≤ rest.length + 2
        · simp only [dif_pos h, Except.ok.injEq] at hok
          exact ⟨n, h, hone, hcount, hok.symm⟩
        · simp only [dif_neg h, reduceCtorEq] at hok
    · rintro ⟨n, h, hone, hcount, rfl⟩
      simp only [List.length_cons] at h
      have hvertices : vertices? count (rest.length + 2) = some n :=
        vertices?_eq_some_iff.mpr ⟨hcount, hone, by omega⟩
      simp only [hvertices, dif_pos h]

end Gerber.Figure

namespace Gerber.ApertureMacro

open Decimal Figure

/-- If all modifiers of a primitive have values, then its figure is what comes of taking the values
from their positions, and that is a figure or a fault of the aperture.  An outline has a figure if
its second value is a number of vertices, at least one, and there is a place for each of them, for
the first one again, and for a rotation. -/
theorem figure_eq_byPosition {bindings : Bindings Float} {p : MacroPrimitive Float}
    {values : List Float} (scale : Float)
    (h : p.modifiers.mapM (Modifier.eval bindings) = .ok values) :
    (∃ result : Except ApertureFault (Figure Float),
      (byPosition p.primitive values scale).run = some result ∧
        figure bindings scale p = result.mapError .aperture) ∧
    (p.primitive = .outline → ∀ f, figure bindings scale p = .ok f ↔
      ∃ n, ∃ hn : 2 * n + 5 ≤ values.length,
        1 ≤ n ∧ rational? values[1] = some (n : ℚ) ∧ f = outlineOf values scale n hn) := by
  have hfigure : figure bindings scale p =
      (ofValues p.primitive values scale).mapError .aperture := by
    rw [figure, h]
  refine ⟨⟨_, run_byPosition p.primitive values scale, hfigure⟩, ?_⟩
  intro houtline f
  rw [hfigure, houtline, Except.mapError_eq_ok]
  exact ofOutline_eq_ok_iff

/-- A triangle whose number of vertices is a parameter. -/
def triangle : MacroPrimitive Float :=
  ⟨.outline, [.literal 1, .named "1".toList, .literal 0, .literal 0, .literal 2, .literal 0,
    .literal 0, .literal 1, .literal 0, .literal 0, .literal 30]⟩

theorem figure_eq_byPosition_triangle :
    triangle.modifiers.mapM (Modifier.eval (.ofParameters [3])) =
        .ok [1, 3, 0, 0, 2, 0, 0, 1, 0, 0, 30] ∧
      figure (.ofParameters [3]) 1 triangle =
        .ok (outlineOf [1, 3, 0, 0, 2, 0, 0, 1, 0, 0, 30] 1 3 (by decide)) := by
  have hvalues : triangle.modifiers.mapM (Modifier.eval (.ofParameters [3])) =
      .ok [1, 3, 0, 0, 2, 0, 0, 1, 0, 0, 30] := rfl
  have hcount : rational? 3 = some ((3 : Nat) : ℚ) := by decide +kernel
  exact ⟨hvalues, ((figure_eq_byPosition 1 hvalues).2 rfl _).mpr
    ⟨3, by decide, by decide, hcount, rfl⟩⟩

end Gerber.ApertureMacro
