import Gerber.Format
import Gerber.Proofs.Text.Digits
import Mathlib.Data.List.Basic
import Mathlib.Data.List.TakeWhile

/-!
# Format commands

A format is declared by two commands, one for the units and one for the digit counts of both axes.
A format is read from a pair of texts if and only if they declare it.  The two modes that are not
supported are told apart from malformed commands, whatever follows them.
-/

namespace Gerber

/-- The command that selects the units. -/
def Units.command : Units → Text
  | millimeters => "%MOMM*%".toList
  | inches => "%MOIN*%".toList

private theorem Units.ofCommand_eq_ok_iff {source : Text} {units : Units} :
    ofCommand source = .ok units ↔ source = units.command := by
  unfold ofCommand
  constructor
  · intro h
    split at h
    · cases h
      assumption
    · split at h
      · cases h
        assumption
      · cases h
  · intro h
    subst h
    cases units <;> rfl

namespace Format

/-- The digits after an axis letter: one for the integer places, the others for the decimal
places. -/
structure Counts where
  integer : Char
  decimal : Text

namespace Counts

def text (counts : Counts) : Text := counts.integer :: counts.decimal

/-- The counts are written in digits, of which the decimal places have at least one. -/
structure Writes (counts : Counts) (integerDigits decimalDigits : Nat) : Prop where
  isDigit : counts.integer.isDigit = true
  isDigits : counts.decimal.isDigits = true
  integer_eq : Text.digitsValue [counts.integer] = integerDigits
  decimal_eq : Text.digitsValue counts.decimal = decimalDigits

end Counts

/-- The command for the digit counts of both axes, with leading zeros omitted and absolute
coordinates. -/
def header (x y : Counts) : Text :=
  "%FSLA".toList ++ (('X' :: x.text ++ 'Y' :: y.text) ++ "*%".toList)

/-- The digit counts that a format can have. -/
structure InRange (format : Format) : Prop where
  integer_le : format.integerDigits ≤ 6
  le_decimal : 3 ≤ format.decimalDigits
  decimal_le : format.decimalDigits ≤ 7

/-- Two commands declare a format: one selects its units, and the other has its digit counts, which
are in range, for both axes. -/
structure Declared (fs mo : Text) (format : Format) : Prop where
  units : mo = format.units.command
  counts : ∃ x y : Counts, fs = header x y ∧
    x.Writes format.integerDigits format.decimalDigits ∧
    y.Writes format.integerDigits format.decimalDigits
  inRange : format.InRange

private theorem digitCounts?_eq_some_iff {t : Text} {i d : Nat} :
    digitCounts? t = some (i, d) ↔
      ∃ counts : Counts, t = counts.text ∧ counts.Writes i d ∧ d < 256 := by
  constructor
  · intro h
    unfold digitCounts? at h
    split at h
    next c q =>
      split at h
      next hdigits =>
        simp only [Text.isDigits, List.isEmpty_cons, List.all_cons, Bool.not_false, Bool.true_and,
          Bool.and_eq_true, Bool.not_eq_true'] at hdigits
        obtain ⟨⟨hc, hall⟩, hq⟩ := hdigits
        have hdecimal : Text.isDigits q = true := by simp [Text.isDigits, hq, hall]
        rw [Text.natural?_of_isDigits hdecimal] at h
        split at h
        next hlimit =>
          cases h
          exact ⟨⟨c, q⟩, rfl, ⟨hc, hdecimal, rfl, rfl⟩, hlimit⟩
        next => cases h
      next => cases h
    next => cases h
  · rintro ⟨⟨c, q⟩, rfl, ⟨hc, hq, rfl, rfl⟩, hlimit⟩
    have hdigits : (Text.isDigits (c :: q) && !q.isEmpty) = true := by
      simp_all [Text.isDigits]
    simp only [Counts.text, digitCounts?, hdigits, if_true, Text.natural?_of_isDigits hq,
      if_pos hlimit, Option.map_some]

private theorem Counts.Writes.not_mem {counts : Counts} {i d : Nat} (h : counts.Writes i d)
    {c : Char} (hc : c.isDigit = false) : c ∉ counts.text := by
  have hdecimal := h.isDigits
  simp only [Text.isDigits, Bool.and_eq_true, List.all_eq_true] at hdecimal
  have hall : ∀ d ∈ counts.text, d.isDigit = true :=
    List.forall_mem_cons.mpr ⟨h.isDigit, hdecimal.2⟩
  intro hmem
  have := hall c hmem
  rw [hc] at this
  cases this

/-- A text ends with the last `Y` in it and what its end is, read backwards, up to a `Y`. -/
private theorem dropWhile_reverse_eq_cons_iff {t before y : Text} {c : Char} :
    (t.reverse.dropWhile (· != 'Y') = c :: before ∧
        (t.reverse.takeWhile (· != 'Y')).reverse = y) ↔
      c = 'Y' ∧ t = before.reverse ++ 'Y' :: y ∧ 'Y' ∉ y := by
  constructor
  · rintro ⟨hdrop, rfl⟩
    have hc : c = 'Y' := by
      have hhead := List.head_dropWhile_not (· != 'Y') (l := t.reverse) (by simp [hdrop])
      simpa [hdrop] using hhead
    have hsplit := List.takeWhile_append_dropWhile (p := (· != 'Y')) (l := t.reverse)
    rw [hdrop] at hsplit
    refine ⟨hc, ?_, ?_⟩
    · have hreverse := congrArg List.reverse hsplit
      simpa [hc] using hreverse.symm
    · intro hmem
      have := List.mem_takeWhile_imp (List.mem_reverse.mp hmem)
      simp at this
  · rintro ⟨rfl, rfl, hy⟩
    have hall : ∀ d ∈ y.reverse, (d != 'Y') = true := by
      intro d hd
      rw [bne_iff_ne]
      rintro rfl
      exact hy (List.mem_reverse.mp hd)
    rw [List.reverse_append, List.reverse_cons, List.append_assoc, List.singleton_append,
      List.dropWhile_append_of_pos hall, List.takeWhile_append_of_pos hall]
    simp

private theorem axes?_eq_some_iff {t x y : Text} :
    axes? t = some (x, y) ↔
      t = 'X' :: x ++ 'Y' :: y ∧ 'X' ∉ x ∧ 'X' ∉ y ∧ 'Y' ∉ y := by
  constructor
  · intro h
    unfold axes? at h
    split at h
    next rest =>
      split at h
      next => cases h
      next hX =>
        split at h
        next => cases h
        next c before hdrop =>
          cases h
          obtain ⟨rfl, hrest, hY⟩ := dropWhile_reverse_eq_cons_iff.mp ⟨hdrop, rfl⟩
          rw [hrest] at hX
          simp only [List.contains_eq_mem, List.mem_append, List.mem_cons, Char.reduceEq,
            false_or, decide_eq_true_eq, not_or] at hX
          exact ⟨congrArg ('X' :: ·) hrest, hX.1, hX.2, hY⟩
    next => cases h
  · rintro ⟨rfl, hx, hy, hY⟩
    have hsplit : x ++ 'Y' :: y = x.reverse.reverse ++ 'Y' :: y := by rw [List.reverse_reverse]
    obtain ⟨hdrop, htake⟩ := dropWhile_reverse_eq_cons_iff.mpr ⟨rfl, hsplit, hY⟩
    have hX : (x ++ 'Y' :: y).contains 'X' = false := by simp [hx, hy]
    simp only [axes?, List.cons_append, hX, Bool.false_eq_true, if_false, hdrop, htake,
      List.reverse_reverse]

/-- The digit counts of both axes, if the text has them and ends as a command does. -/
def axisCounts? (axes : Text) : Option ((Nat × Nat) × (Nat × Nat)) := do
  let body ← Text.before? axes "*%".toList
  let (x, y) ← axes? body
  pure (← digitCounts? x, ← digitCounts? y)

private theorem axisCounts?_eq_some_iff {axes : Text} {xi xd yi yd : Nat} :
    axisCounts? axes = some ((xi, xd), (yi, yd)) ↔
      ∃ x y : Counts, axes = ('X' :: x.text ++ 'Y' :: y.text) ++ "*%".toList ∧
        (x.Writes xi xd ∧ xd < 256) ∧ (y.Writes yi yd ∧ yd < 256) := by
  have hparts : axisCounts? axes = some ((xi, xd), (yi, yd)) ↔
      ∃ body x y, axes.before? "*%".toList = some body ∧ axes? body = some (x, y) ∧
        digitCounts? x = some (xi, xd) ∧ digitCounts? y = some (yi, yd) := by
    simp [axisCounts?, Option.bind_eq_some_iff]
  rw [hparts]
  constructor
  · rintro ⟨body, xt, yt, hbody, hcut, hxt, hyt⟩
    obtain ⟨x, rfl, hx⟩ := digitCounts?_eq_some_iff.mp hxt
    obtain ⟨y, rfl, hy⟩ := digitCounts?_eq_some_iff.mp hyt
    refine ⟨x, y, ?_, hx, hy⟩
    rw [← (axes?_eq_some_iff.mp hcut).1]
    exact (List.isSuffixOf?_eq_some_iff_append_eq.mp hbody).symm
  · rintro ⟨x, y, haxes, hx, hy⟩
    refine ⟨_, x.text, y.text, List.isSuffixOf?_eq_some_iff_append_eq.mpr haxes.symm, ?_,
      digitCounts?_eq_some_iff.mpr ⟨x, rfl, hx⟩, digitCounts?_eq_some_iff.mpr ⟨y, rfl, hy⟩⟩
    exact axes?_eq_some_iff.mpr ⟨rfl, hx.1.not_mem rfl, hy.1.not_mem rfl, hy.1.not_mem rfl⟩

private theorem ofAxes_eq (units : Units) (source axes : Text) :
    ofAxes units source axes =
      match axisCounts? axes with
      | none => .error (.format .malformed source)
      | some ((xi, xd), (yi, yd)) =>
        if xi ≠ yi ∨ xd ≠ yd then .error (.format (.different xi xd yi yd) source)
        else if 6 < xi ∨ xd < 3 ∨ 7 < xd then .error (.format (.outOfRange xi xd) source)
        else .ok ⟨units, xi, xd⟩ := rfl

private theorem ofAxes_eq_ok_iff {units : Units} {source axes : Text} {format : Format} :
    ofAxes units source axes = .ok format ↔
      axisCounts? axes = some ((format.integerDigits, format.decimalDigits),
          (format.integerDigits, format.decimalDigits)) ∧
        format.units = units ∧ format.InRange := by
  rw [ofAxes_eq]
  constructor
  · intro h
    split at h
    next => cases h
    next xi xd yi yd hcounts =>
      split at h
      next => cases h
      next hsame =>
        split at h
        next => cases h
        next hrange =>
          cases h
          rw [not_or, not_ne_iff, not_ne_iff] at hsame
          obtain ⟨rfl, rfl⟩ := hsame
          refine ⟨hcounts, rfl, ?_, ?_, ?_⟩ <;> dsimp only <;> omega
  · obtain ⟨u, i, d⟩ := format
    rintro ⟨hcounts, rfl, hinteger, hlow, hhigh⟩
    dsimp only at hcounts hinteger hlow hhigh
    rw [hcounts]
    simp only [ne_eq, not_true_eq_false, or_self, if_false]
    rw [if_neg (by omega)]

private theorem ofHeader_eq_ok_iff {units : Units} {source : Text} {format : Format} :
    ofHeader units source = .ok format ↔
      ∃ axes, source = "%FSLA".toList ++ axes ∧ ofAxes units source axes = .ok format := by
  constructor
  · intro h
    unfold ofHeader at h
    split at h
    next axes haxes =>
      refine ⟨axes, ?_, h⟩
      exact (List.isPrefixOf?_eq_some_iff_append_eq.mp haxes).symm
    all_goals cases h
  · rintro ⟨axes, hsource, h⟩
    have haxes : source.after? "%FS".toList = some ('L' :: 'A' :: axes) :=
      List.isPrefixOf?_eq_some_iff_append_eq.mpr hsource.symm
    rw [ofHeader, haxes]
    exact h

private theorem ofCommands_eq_ok_iff {fs mo : Text} {format : Format} :
    ofCommands fs mo = .ok format ↔
      ∃ units, mo = units.command ∧ ofHeader units fs = .ok format := by
  unfold ofCommands
  constructor
  · intro h
    cases hunits : Units.ofCommand mo with
    | error e => simp [hunits, bind, Except.bind] at h
    | ok units =>
      rw [hunits] at h
      exact ⟨units, Units.ofCommand_eq_ok_iff.mp hunits, h⟩
  · rintro ⟨units, hmo, h⟩
    rw [Units.ofCommand_eq_ok_iff.mpr hmo]
    exact h

theorem declared_of_ofCommands {fs mo : Text} {format : Format}
    (h : ofCommands fs mo = .ok format) : Declared fs mo format := by
  obtain ⟨units, hmo, h⟩ := ofCommands_eq_ok_iff.mp h
  obtain ⟨axes, hfs, h⟩ := ofHeader_eq_ok_iff.mp h
  obtain ⟨hcounts, rfl, hrange⟩ := ofAxes_eq_ok_iff.mp h
  obtain ⟨x, y, rfl, hx, hy⟩ := axisCounts?_eq_some_iff.mp hcounts
  exact ⟨hmo, ⟨x, y, hfs, hx.1, hy.1⟩, hrange⟩

private theorem ofCommands_of_declared {fs mo : Text} {format : Format}
    (h : Declared fs mo format) : ofCommands fs mo = .ok format := by
  obtain ⟨hmo, ⟨x, y, hfs, hx, hy⟩, hrange⟩ := h
  -- The limit at which counts are read does not cut off any that are in range.
  have hlimit : format.decimalDigits < 256 := Nat.lt_of_le_of_lt hrange.decimal_le (by decide)
  have hcounts := axisCounts?_eq_some_iff.mpr ⟨x, y, rfl, ⟨hx, hlimit⟩, ⟨hy, hlimit⟩⟩
  have haxes : ofAxes format.units fs _ = .ok format :=
    ofAxes_eq_ok_iff.mpr ⟨hcounts, rfl, hrange⟩
  exact ofCommands_eq_ok_iff.mpr ⟨_, hmo, ofHeader_eq_ok_iff.mpr ⟨_, hfs, haxes⟩⟩

/-- A format is read from two texts if and only if they declare it.  If the units are valid, a
command with trailing zeros omitted and one with incremental coordinates are refused as such,
whatever follows the modes. -/
theorem ofCommands_follows_grammar (fs mo : Text) :
    (∀ format, ofCommands fs mo = .ok format ↔ Declared fs mo format) ∧
    (∀ units : Units, mo = units.command →
      ("%FST".toList <+: fs → ofCommands fs mo = .error (.trailingZeros fs)) ∧
      ("%FSLI".toList <+: fs → ofCommands fs mo = .error (.incrementalCoordinates fs))) := by
  refine ⟨fun format => ⟨declared_of_ofCommands, ofCommands_of_declared⟩, ?_⟩
  intro units hmo
  have hheader : ofCommands fs mo = ofHeader units fs := by
    rw [ofCommands, Units.ofCommand_eq_ok_iff.mpr hmo]
    rfl
  constructor
  · rintro ⟨rest, rfl⟩
    rw [hheader]
    rfl
  · rintro ⟨rest, rfl⟩
    rw [hheader]
    rfl

theorem ofCommands_follows_grammar_inches :
    Units.inches.command = "%MOIN*%".toList ∧
      Declared "%FSLAX26Y2006*%".toList Units.inches.command ⟨.inches, 2, 6⟩ ∧
      ofCommands "%FSLAX26Y2006*%".toList Units.inches.command = .ok ⟨.inches, 2, 6⟩ ∧
      ofCommands "%FSTAX26Y26".toList Units.inches.command =
        .error (.trailingZeros "%FSTAX26Y26".toList) ∧
      ofCommands "%FSLIX26X26Y9*".toList Units.inches.command =
        .error (.incrementalCoordinates "%FSLIX26X26Y9*".toList) := by
  have hdeclared : Declared "%FSLAX26Y2006*%".toList Units.inches.command ⟨.inches, 2, 6⟩ :=
    { units := rfl
      counts := ⟨⟨'2', ['6']⟩, ⟨'2', ['0', '0', '6']⟩, rfl, ⟨rfl, rfl, rfl, rfl⟩,
        ⟨rfl, rfl, rfl, rfl⟩⟩
      inRange := ⟨by decide, by decide, by decide⟩ }
  refine ⟨rfl, hdeclared, ?_, ?_, ?_⟩
  · exact ((ofCommands_follows_grammar _ _).1 _).mpr hdeclared
  · exact ((ofCommands_follows_grammar _ _).2 _ rfl).1 ⟨_, rfl⟩
  · exact ((ofCommands_follows_grammar _ _).2 _ rfl).2 ⟨_, rfl⟩

end Format

end Gerber
