import Gerber.Proofs.Program.Conditions
import Gerber.Proofs.Stream.Progress
import Gerber.Proofs.Stream.Regions
import Gerber.Proofs.Stream.Sequence
import Mathlib.Logic.ExistsUnique

/-!
# The books of regions

Over the streams of a file, each region is opened by one command of one stream and follows the steps
of that stream only.  A stream fails for want of a region only where it closes one that it has not
opened.
-/

namespace Gerber

variable {α : Type} [Scalar α]

namespace Stream

variable {setting : Setting α} {pending : Step α} {last : Coord α} {s t u : Session α}
  {token : Token} {tokens : List Token} {cursor : Cursor α} {result : Cursor α × Bool} {e : Error}
  {k : Nat}

theorem fails_closeRegion_iff {binding : Option Nat} {line : Nat} {tolerance : α} :
    (Run.closeRegion binding line tolerance).Fails s e t ↔
      ∃ fault, s.regions.close binding line = .error fault ∧ e = { fault } ∧ t = s := by
  cases hclose : s.regions.close binding line with
  | error fault => simp [Run.closeRegion, hclose]
  | ok closed =>
    simp only [Run.closeRegion, Run.fails_bind, Run.fails_get, Run.yields_get, Run.fails_ofExcept,
      Run.yields_ofExcept, Run.fails_set]
    simp [hclose]
    split <;> simp

private theorem not_fails_apply_begin (hc : Command.ofText token.text = .regionBegin)
    (hopen : s.regions.HasOpen pending.region) :
    ¬ (apply setting pending last token).Fails s e t := by
  simp only [apply, hc]
  by_cases hsome : pending.region.isSome
  · simp [hsome, Run.isRegionOpen, Run.openRegion, hopen.isOpen hsome]
  · simp [hsome, Run.openRegion]

private theorem fails_apply_end_iff (hc : Command.ofText token.text = .regionEnd)
    (hopen : s.regions.HasOpen pending.region) :
    (apply setting pending last token).Fails s e t ↔
      pending.region = none ∧ e = { fault := .regionNotOpen } ∧ t = s := by
  simp only [apply, hc, Run.fails_bind, fails_closeRegion_iff, hopen.close_eq_error_iff]
  simp

/-- A command fails for want of a region only if it closes one and none is bound. -/
theorem fails_apply_regionNotOpen_iff (hopen : s.regions.HasOpen pending.region) :
    (apply setting pending last token).Fails s e t ∧ e.fault = .regionNotOpen ↔
      token.closesRegion ∧ pending.region = none ∧ e = { fault := .regionNotOpen } ∧ t = s := by
  have hcloses : token.closesRegion ↔ Command.ofText token.text = .regionEnd :=
    decide_eq_true_iff
  rw [hcloses]
  by_cases hend : Command.ofText token.text = .regionEnd
  · rw [fails_apply_end_iff hend hopen]
    constructor
    · intro h
      exact ⟨hend, h.1⟩
    · intro h
      exact ⟨h.2, by rw [h.2.2.1]⟩
  · have hnot : ¬ ((apply setting pending last token).Fails s e t ∧ e.fault = .regionNotOpen) := by
      intro h
      by_cases hbegin : Command.ofText token.text = .regionBegin
      · exact not_fails_apply_begin hbegin hopen h.1
      · have hcode := (reports_apply_of_ne setting pending last hbegin hend).code_mem s e t h.1
        rw [Error.code, h.2] at hcode
        simp [Fault.code, drawingConditions] at hcode
    simp [hnot, hend]

private theorem yields_isRegionOpen_of_advance
    (h : (advance setting .initial tokens).Yields s result t)
    (hsome : result.1.pending.region.isSome) (hbooks : t.SameBooks u) :
    (Run.isRegionOpen result.1.pending.region : Run α Bool).Yields u true u := by
  have hopen := (advances_of_advance h).hasOpen.isOpen hsome
  rw [Run.yields_isRegionOpen, hbooks.1]
  exact ⟨hopen, rfl⟩

/-- A stream fails only at one of its commands. -/
theorem fails_compile_iff :
    (compile setting tokens).Fails s e t ↔ (advance setting .initial tokens).Fails s e t := by
  constructor
  · intro h
    rw [compile, Run.fails_bind] at h
    rcases h with h | ⟨result, u, hadvance, h⟩
    · exact h
    · have hend {v : Session α} (hv : u.SameBooks v) :
          ¬ (do
            if result.1.pending.region.isSome then
              if ← Run.isRegionOpen result.1.pending.region then Run.note .regionLeftOpen
            pure ⟨result.1.steps, result.2⟩ : Run α (Compiled α)).Fails v e t := by
        by_cases hsome : result.1.pending.region.isSome
        · have hcheck := yields_isRegionOpen_of_advance hadvance hsome hv
          intro h
          simp only [hsome, if_true] at h
          rcases Run.fails_bind.mp h with h | ⟨answer, w, hanswer, h⟩
          · exact hcheck.not_fails h
          · split at h <;> simp at h
        · simp [hsome]
      simp only at h
      split at h
      · rcases Run.fails_bind.mp h with h | ⟨_, v, hclose, h⟩
        · exact absurd ((Run.Reports.closeRepeat _).code_mem _ _ _ h) List.not_mem_nil
        · exact absurd h (hend (.of_closeRepeat hclose))
      · exact absurd h (hend (.refl u))
  · intro h
    rw [compile, Run.fails_bind]
    exact .inl h

omit [Scalar α] in
private theorem fault_locate (e : Error) (line : Nat) (text : Text) :
    (e.locate line text).fault = e.fault := by
  unfold Error.locate
  split <;> rfl

/-- A stream fails for want of a region exactly at a command that closes one, if the commands before
it are carried out and leave none open. -/
private theorem fails_compile_regionNotOpen_iff :
    (∃ t, (compile setting tokens).Fails s e t) ∧ e.fault = .regionNotOpen ↔
      ∃ before token after, tokens = before ++ token :: after ∧
        (∃ cursor u, (advance setting .initial before).Yields s (cursor, false) u) ∧
        token.closesRegion ∧ leavesOpen before = false ∧
        e = ⟨.regionNotOpen, some ⟨token.line, token.text⟩⟩ := by
  have hleaves {before : List Token} {cursor : Cursor α} {u : Session α}
      (h : (advance setting .initial before).Yields s (cursor, false) u) :
      cursor.pending.region = none ↔ leavesOpen before = false := by
    rw [← (advances_of_advance h).isSome_region, Option.isSome_eq_false_iff,
      Option.isNone_iff_eq_none]
  constructor
  · intro h
    obtain ⟨⟨t, hfails⟩, hfault⟩ := h
    obtain ⟨before, token, after, cursor, u, hsplit, hbefore, hfails⟩ :=
      fails_advance_iff.mp (fails_compile_iff.mp hfails)
    obtain ⟨e', happly, rfl⟩ := Run.fails_located.mp hfails
    rw [fault_locate] at hfault
    have hopen := (advances_of_advance hbefore).hasOpen
    obtain ⟨hcloses, hnone, rfl, -⟩ := (fails_apply_regionNotOpen_iff hopen).mp ⟨happly, hfault⟩
    exact ⟨before, token, after, hsplit, ⟨cursor, u, hbefore⟩, hcloses, (hleaves hbefore).mp hnone,
      rfl⟩
  · intro h
    obtain ⟨before, token, after, hsplit, ⟨cursor, u, hbefore⟩, hcloses, hnone, rfl⟩ := h
    have hopen := (advances_of_advance hbefore).hasOpen
    have hfails : (apply setting cursor.pending cursor.last.coord token).Fails u
        { fault := .regionNotOpen } u :=
      ((fails_apply_regionNotOpen_iff hopen).mpr ⟨hcloses, (hleaves hbefore).mpr hnone, rfl, rfl⟩).1
    refine ⟨⟨u, fails_compile_iff.mpr (fails_advance_iff.mpr ?_)⟩, rfl⟩
    exact ⟨before, token, after, cursor, u, hsplit, hbefore,
      Run.fails_located.mpr ⟨_, hfails, rfl⟩⟩

private theorem Advances.length_lt_of_opens {final : Cursor α} {stopped : Bool}
    (h : Advances setting cursor s (token :: tokens) final stopped t)
    (hopens : token.opensRegion) :
    s.regions.regions.length < t.regions.regions.length := by
  cases h with
  | step he _ hrest =>
    have hlength := he.regionEffect.length_eq
    have hgrows := hrest.grows.regions
    rw [if_pos hopens] at hlength
    omega
  | stop he hs =>
    have hlength := he.regionEffect.length_eq
    rw [if_pos hopens] at hlength
    rw [hs.1, hlength]
    exact Nat.lt_succ_self _

private theorem exists_opening (h : (advance setting cursor tokens).Yields s result t)
    (hle : s.regions.regions.length ≤ k) (hlt : k < t.regions.regions.length) :
    ∃ before token after reached u, tokens = before ++ token :: after ∧
      (advance setting cursor before).Yields s (reached, false) u ∧ token.opensRegion ∧
      u.regions.regions.length = k := by
  induction tokens generalizing cursor s with
  | nil =>
    obtain ⟨-, rfl⟩ := Run.yields_pure.mp h
    omega
  | cons token rest ih =>
    obtain ⟨outcome, step, u, happly, hrest, hstop⟩ := yields_apply_of_advance h
    have heffect := effect_of_apply happly
    have hlength := heffect.regionEffect.length_eq
    by_cases hhere : token.opensRegion ∧ s.regions.regions.length = k
    · exact ⟨[], token, rest, cursor, s, rfl, Run.yields_pure.mpr ⟨rfl, rfl⟩, hhere⟩
    · have hlater : u.regions.regions.length ≤ k := by
        by_cases hopens : token.opensRegion
        · have hne : s.regions.regions.length ≠ k := fun heq => hhere ⟨hopens, heq⟩
          rw [if_pos hopens] at hlength
          omega
        · rw [if_neg hopens] at hlength
          omega
      by_cases hne : outcome = .stop
      · rw [(hstop hne).2.1] at hlt
        omega
      · obtain ⟨before, opening, after, reached, v, rfl, hreached, hopening⟩ :=
          ih (hrest hne) hlater
        refine ⟨token :: before, opening, after, reached, v, rfl, ?_, hopening⟩
        exact (outcome_advance_cons happly hne before).trans hreached

end Stream

/-- The token at a position of a stream opens region `k`: there are `k` regions when it is
reached. -/
structure Compilation.Opens (c : Compilation α) (position : Nat) (token : Token) (k : Nat) :
    Prop where
  at_position : c.tokens[position]? = some token
  opens : token.opensRegion
  reached : ∃ cursor u, (Stream.advance c.setting .initial (c.tokens.take position)).Yields
    c.before (cursor, false) u ∧ u.regions.regions.length = k

private theorem eq_take_append_drop {β : Type} {l : List β} {i : Nat} {a : β}
    (h : l[i]? = some a) : l = l.take i ++ a :: l.drop (i + 1) := by
  obtain ⟨hlt, rfl⟩ := List.getElem?_eq_some_iff.mp h
  simp

open Gerber.Stream

namespace Compilation

variable {c : Compilation α} {i j k m : Nat} {token other : Token}

/-- A stream leaves the regions of the streams before it alone. -/
theorem keeps (c : Compilation α) (hk : k < c.before.regions.regions.length) :
    c.after.regions.get? k = c.before.regions.get? k ∧ inRegion k c.steps = [] := by
  obtain ⟨final, hadvances, hsteps⟩ := advances_of_compile c.yields
  have hunbound : (.initial : Cursor α).pending.region ≠ some k := by
    intro h
    cases h
  have hkept := hadvances.keeps hk hunbound
  rw [Compilation.steps, hsteps]
  exact hkept

/-- The region that a token opens follows the steps of the stream. -/
theorem Opens.tells (h : c.Opens j token k) :
    ∃ region, c.after.regions.get? k = some region ∧
      region.Tells token.line (closing? (c.tokens.drop (j + 1))) (verticesOf k c.steps) := by
  obtain ⟨reached, u, hreached, rfl⟩ := h.reached
  obtain ⟨final, v, hyields, hbooks, hsteps⟩ := advance_of_compile c.yields
  rw [eq_take_append_drop h.at_position] at hyields
  have hrest := (outcome_advance_append hreached _).symm.trans hyields
  have hadvances := (advances_of_advance hrest).sameBooks hbooks
  have hfresh : inRegion u.regions.regions.length reached.steps = [] := by
    apply List.filter_eq_nil_iff.mpr
    intro step hstep hregion
    have hanchored := (anchored_of_advances (advances_of_advance hreached)).steps step hstep
    exact absurd (hanchored.region _ (of_decide_eq_true hregion)) (Nat.lt_irrefl _)
  rw [Compilation.steps, hsteps]
  exact hadvances.tells_of_opens h.opens hfresh

theorem Opens.bounds (h : c.Opens j token k) :
    c.before.regions.regions.length ≤ k ∧ k < c.after.regions.regions.length := by
  obtain ⟨region, hget, -⟩ := h.tells
  obtain ⟨reached, u, hreached, rfl⟩ := h.reached
  exact ⟨(advances_of_advance hreached).grows.regions, Regions.lt_of_get? hget⟩

private theorem Opens.lt_of_lt (h : c.Opens i token k) (h' : c.Opens j other m) (hlt : i < j) :
    k < m := by
  obtain ⟨first, u, hfirst, rfl⟩ := h.reached
  obtain ⟨second, v, hsecond, rfl⟩ := h'.reached
  have hget : (c.tokens.take j)[i]? = some token := by
    rw [List.getElem?_take_of_lt hlt, h.at_position]
  have hsplit := eq_take_append_drop hget
  rw [List.take_take, Nat.min_eq_left (Nat.le_of_lt hlt)] at hsplit
  rw [hsplit] at hsecond
  have hrest := (outcome_advance_append hfirst _).symm.trans hsecond
  exact (advances_of_advance hrest).length_lt_of_opens h.opens

theorem Opens.unique (h : c.Opens i token k) (h' : c.Opens j other k) : j = i := by
  by_contra hne
  rcases Nat.lt_or_gt_of_ne hne with hlt | hlt
  · exact absurd (h'.lt_of_lt h hlt) (Nat.lt_irrefl k)
  · exact absurd (h.lt_of_lt h' hlt) (Nat.lt_irrefl k)

private theorem exists_opens (c : Compilation α) (hle : c.before.regions.regions.length ≤ k)
    (hlt : k < c.after.regions.regions.length) : ∃ position token, c.Opens position token k := by
  obtain ⟨final, v, hyields, hbooks, -⟩ := advance_of_compile c.yields
  rw [hbooks.1] at hlt
  obtain ⟨before, token, after, reached, u, hsplit, hreached, hopens, hlength⟩ :=
    exists_opening hyields hle hlt
  refine ⟨before.length, token, ?_, hopens, reached, u, ?_, hlength⟩
  · simp [hsplit]
  · simpa [hsplit] using hreached

end Compilation

namespace Consecutive

variable {s t : Session α} {streams : List (Compilation α)} {c d : Compilation α}
  {i j k m : Nat}

/-- The streams before and after the one at an index. -/
theorem parts (h : Consecutive s streams t) (hi : streams[i]? = some c) :
    Consecutive s (streams.take i) c.before ∧ Consecutive c.after (streams.drop (i + 1)) t := by
  rw [eq_take_append_drop hi] at h
  exact h.split

private theorem grows_between (h : Consecutive s streams t) (hi : streams[i]? = some c)
    (hj : streams[j]? = some d) (hlt : i < j) : c.after.Grows d.before := by
  have hi' : (streams.take j)[i]? = some c := by
    rw [List.getElem?_take_of_lt hlt, hi]
  exact ((h.parts hj).1.parts hi').2.grows

private theorem keeps_regions (h : Consecutive s streams t) (hk : k < s.regions.regions.length) :
    t.regions.get? k = s.regions.get? k := by
  induction h with
  | nil hs => rw [hs.1]
  | @cons s t c rest hs _ ih =>
    have hbefore : k < c.before.regions.regions.length := by rwa [hs.1]
    have hafter := Nat.lt_of_lt_of_le hbefore (Stream.refers_of_compile c.yields).1.regions
    rw [ih hafter, (c.keeps hbefore).1, hs.1]

private theorem exists_adding (h : Consecutive s streams t) (hle : s.regions.regions.length ≤ k)
    (hlt : k < t.regions.regions.length) :
    ∃ (i : Nat) (c : Compilation α), streams[i]? = some c ∧
      c.before.regions.regions.length ≤ k ∧ k < c.after.regions.regions.length := by
  induction h with
  | nil hs =>
    rw [hs.1] at hlt
    omega
  | @cons s t c rest hs _ ih =>
    by_cases hown : k < c.after.regions.regions.length
    · exact ⟨0, c, rfl, by rwa [hs.1], hown⟩
    · obtain ⟨i, d, hi, hd⟩ := ih (Nat.le_of_not_lt hown) hlt
      exact ⟨i + 1, d, hi, hd⟩

private theorem lt_before (h : Consecutive s streams t) (hi : streams[i]? = some c)
    (hj : streams[j]? = some d) (hlt : i < j) (hk : k < c.after.regions.regions.length) :
    k < d.before.regions.regions.length :=
  Nat.lt_of_lt_of_le hk (h.grows_between hi hj hlt).regions

private theorem existsUnique_opens (h : Consecutive s streams t) (hempty : s.regions.regions = [])
    (hk : k < t.regions.regions.length) :
    ∃! place : Nat × Nat, ∃ c token, streams[place.1]? = some c ∧ c.Opens place.2 token k := by
  obtain ⟨i, c, hi, hle, hlt⟩ := h.exists_adding (by simp [hempty]) hk
  obtain ⟨j, token, hopens⟩ := c.exists_opens hle hlt
  refine ⟨(i, j), ⟨c, token, hi, hopens⟩, ?_⟩
  intro place hplace
  obtain ⟨d, other, hd, hother⟩ := hplace
  have hbounds := hother.bounds
  have hsame : place.1 = i := by
    by_contra hne
    rcases Nat.lt_or_gt_of_ne hne with hbefore | hafter
    · have hknown := h.lt_before hd hi hbefore hbounds.2
      omega
    · have hknown := h.lt_before hi hd hafter hlt
      omega
  rw [hsame, hi] at hd
  obtain rfl := Option.some.inj hd
  exact Prod.ext hsame (hopens.unique hother)

private theorem not_inRegion_of_opens (h : Consecutive s streams t) {token : Token}
    (hi : streams[i]? = some c) (hopens : c.Opens m token k) (hj : streams[j]? = some d)
    (hne : j ≠ i) : ∀ step ∈ d.steps, step.region ≠ some k := by
  intro step hstep hregion
  have hbounds := hopens.bounds
  rcases Nat.lt_or_gt_of_ne hne with hbefore | hafter
  · -- an earlier stream knows only regions before those of this one
    have hknown := ((refers_of_compile d.yields).2 step hstep).region k hregion
    have hearlier := (h.grows_between hj hi hbefore).regions
    omega
  · have hnone := (d.keeps (h.lt_before hi hj hafter hbounds.2)).2
    exact List.filter_eq_nil_iff.mp hnone step hstep (decide_eq_true hregion)

/-- The regions of streams that are compiled one after the other over books without regions.  Each
is opened by one token of one stream, and tells of the steps of that stream that are bound to it, up
to the token that closes it; no step of another stream is bound to it.  Any stream, whatever the
books, fails for want of a region exactly where it closes one that it has not opened, and wherever
it has got to a check for the open region holds. -/
theorem booked_regions (h : Consecutive s streams t) (hempty : s.regions.regions = []) :
    (∀ k, k < t.regions.regions.length → ∃! place : Nat × Nat, ∃ c token,
      streams[place.1]? = some c ∧ c.Opens place.2 token k) ∧
    (∀ (i j k : Nat) (c : Compilation α) (token : Token),
      streams[i]? = some c → c.Opens j token k →
        (∃ region, t.regions.get? k = some region ∧
          region.Tells token.line (closing? (c.tokens.drop (j + 1))) (verticesOf k c.steps)) ∧
        ∀ (other : Nat) (d : Compilation α), other ≠ i → streams[other]? = some d →
          ∀ step ∈ d.steps, step.region ≠ some k) ∧
    ∀ (setting : Setting α) (tokens : List Token) (v : Session α),
      (∀ e, (∃ w, (compile setting tokens).Fails v e w) ∧ e.fault = .regionNotOpen ↔
        ∃ before token after, tokens = before ++ token :: after ∧
          (∃ cursor u, (advance setting .initial before).Yields v (cursor, false) u) ∧
          token.closesRegion ∧ leavesOpen before = false ∧
          e = ⟨.regionNotOpen, some ⟨token.line, token.text⟩⟩) ∧
      ∀ cursor stopped u w, (advance setting .initial tokens).Yields v (cursor, stopped) u →
        u.SameBooks w → cursor.pending.region.isSome →
          (Run.isRegionOpen cursor.pending.region : Run α Bool).Yields w true w := by
  refine ⟨fun k hk => h.existsUnique_opens hempty hk, ?_, ?_⟩
  · intro i j k c token hi hopens
    constructor
    · rw [(h.parts hi).2.keeps_regions hopens.bounds.2]
      exact hopens.tells
    · intro other d hne hd
      exact h.not_inRegion_of_opens hi hopens hd hne
  · intro setting tokens v
    refine ⟨fun e => fails_compile_regionNotOpen_iff, ?_⟩
    intro cursor stopped u w hyields hbooks hsome
    exact yields_isRegionOpen_of_advance hyields hsome hbooks

/-- A stream that opens a second region while the first is open, and one that stops inside a
region. -/
def contourStreams : List (Setting Float × List Token) :=
  [(plainSetting, [⟨"G36*".toList, 1⟩, ⟨"X10D02*".toList, 2⟩, ⟨"Y10D01*".toList, 3⟩,
      ⟨"G36*".toList, 4⟩, ⟨"X20D01*".toList, 5⟩, ⟨"G37*".toList, 6⟩, ⟨"X30D02*".toList, 7⟩]),
    (plainSetting, [⟨"G36*".toList, 8⟩, ⟨"X40D01*".toList, 9⟩, ⟨"M02*".toList, 10⟩,
      ⟨"G37*".toList, 11⟩])]

theorem booked_regions_contourStreams :
    ∃ (streams : List (Compilation Float)) (t : Session Float),
      Consecutive .initial streams t ∧
      streams.map (fun c => (c.setting, c.tokens)) = contourStreams ∧
      t.regions.regions.map (fun r => (r.openLine, r.closeLine, r.vertices)) =
        [(1, none, 2), (4, some 6, 1), (8, none, 1)] ∧
      ∃ (i j : Nat) (c : Compilation Float) (token : Token) (region : Region Float),
        streams[i]? = some c ∧ c.Opens j token 1 ∧
        t.regions.get? 1 = some region ∧
        region.Tells token.line (closing? (c.tokens.drop (j + 1))) (verticesOf 1 c.steps) := by
  have hregions : ((do
        let _ ← compileEach contourStreams
        let s ← get
        pure (s.regions.regions.map fun r => (r.openLine, r.closeLine, r.vertices)) :
          Run Float (List (Nat × Option Nat × Nat))).outcome .initial).1.toOption.map id =
      some [(1, none, 2), (4, some 6, 1), (8, none, 1)] := by
    decide +kernel
  obtain ⟨_, _, hyields, rfl⟩ := Run.exists_yields_of_outcome hregions
  simp only [Run.yields_bind, Run.yields_get, Run.yields_pure] at hyields
  obtain ⟨compiled, t, hcompiles, u, _, ⟨hu, -⟩, hshown, -⟩ := hyields
  rw [hu] at hshown
  obtain ⟨streams, hstreams, hsources, -⟩ := of_compileEach hcompiles
  have hlength : t.regions.regions.length = 3 := by
    simpa using (congrArg List.length hshown).symm
  have hbooked := hstreams.booked_regions rfl
  obtain ⟨place, hplace, -⟩ := hbooked.1 1 (by rw [hlength]; decide)
  obtain ⟨c, token, hi, hopens⟩ := hplace
  obtain ⟨region, hget, htells⟩ := (hbooked.2.1 place.1 place.2 1 c token hi hopens).1
  exact ⟨streams, t, hstreams, hsources, hshown.symm, place.1, place.2, c, token, region, hi,
    hopens, hget, htells⟩

end Consecutive

end Gerber
