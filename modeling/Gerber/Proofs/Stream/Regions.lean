import Gerber.Proofs.Stream.Frame
import Gerber.Proofs.Stream.Reading
import Gerber.Proofs.Stream.References

/-!
# Regions of a stream

A stream binds its steps to the region that it opened last, until it closes that region or opens
another one.  The books follow the steps: what a region counts are the vertices of the steps that
are bound to it.  A region that is no longer bound is left alone.
-/

namespace Gerber

variable {α : Type}

/-- What a command does to the binding of regions: it opens one, or closes the open one. -/
def Command.region? : Command → Option Bool
  | regionBegin => some true
  | regionEnd => some false
  | _ => none

namespace Token

def opensRegion (token : Token) : Bool := token.command = .regionBegin

def closesRegion (token : Token) : Bool := token.command = .regionEnd

end Token

namespace Regions

variable {r r' : Regions α} {k : Nat} {region closed : Region α}

private theorem get?_add_of_lt (h : k < r.regions.length) (line : Nat) :
    (r.add line).get? k = r.get? k :=
  List.getElem?_append_left h

private theorem get?_add_length (r : Regions α) (line : Nat) :
    (r.add line).get? r.regions.length = some (.opened line) :=
  List.getElem?_concat_length

private theorem length_add (r : Regions α) (line : Nat) :
    (r.add line).regions.length = r.regions.length + 1 := by
  simp [add]

theorem lt_of_get? (h : r.get? k = some region) : k < r.regions.length :=
  (List.getElem?_eq_some_iff.mp h).1

private theorem addVertex_of_get? (h : r.get? k = some region) (hopen : region.isOpen)
    (c : Coord α) : r.addVertex k c = ⟨r.regions.set k (region.addVertex c)⟩ := by
  simp [addVertex, h, hopen]

private theorem get?_addVertex_of_ne {id : Nat} (h : id ≠ k) (c : Coord α) :
    (r.addVertex id c).get? k = r.get? k := by
  unfold addVertex
  split
  · split
    · exact List.getElem?_set_ne h
    · rfl
  · rfl

private theorem close_eq_ok_iff {id : Option Nat} {line : Nat} :
    r.close id line = .ok (r', closed) ↔ ∃ k region, id = some k ∧ r.get? k = some region ∧
      region.isOpen ∧ closed = { region with closeLine := some line } ∧
      r' = ⟨r.regions.set k closed⟩ := by
  unfold close
  cases id with
  | none => simp
  | some k =>
    cases hget : r.get? k with
    | none => simp [hget]
    | some region =>
      by_cases hopen : region.isOpen
      · simp only [hget, hopen, if_true, Except.ok.injEq, Prod.mk.injEq]
        constructor
        · rintro ⟨rfl, rfl⟩
          exact ⟨k, region, rfl, hget, hopen, rfl, rfl⟩
        · rintro ⟨id, other, hid, hother, -, rfl, rfl⟩
          obtain rfl := Option.some.inj hid
          obtain rfl := Option.some.inj (hget.symm.trans hother)
          exact ⟨rfl, rfl⟩
      · simp [hopen, hget]

/-- The region of a binding, if there is one, is open. -/
def HasOpen (r : Regions α) (binding : Option Nat) : Prop :=
  ∀ k, binding = some k → ∃ region, r.get? k = some region ∧ region.isOpen

theorem HasOpen.isOpen {binding : Option Nat} (h : r.HasOpen binding) (hsome : binding.isSome) :
    r.isOpen binding = .ok true := by
  obtain ⟨k, rfl⟩ := Option.isSome_iff_exists.mp hsome
  obtain ⟨region, hget, hopen⟩ := h k rfl
  simp [Regions.isOpen, hget, hopen]

/-- Closing fails only without a binding. -/
theorem HasOpen.close_eq_error_iff {binding : Option Nat} (h : r.HasOpen binding) {line : Nat}
    {fault : Fault} :
    r.close binding line = .error fault ↔ binding = none ∧ fault = .regionNotOpen := by
  cases binding with
  | none => simp [close, eq_comm]
  | some k =>
    obtain ⟨region, hget, hopen⟩ := h k rfl
    simp [close, hget, hopen]

end Regions

def inRegion (k : Nat) (steps : List (Step α)) : List (Step α) :=
  steps.filter fun step => step.region = some k

/-- The vertices that steps give to a region: the coordinates of those that are bound to it and do
not stop. -/
def verticesOf (k : Nat) (steps : List (Step α)) : List (Coord α) :=
  ((inRegion k steps).filter fun step => step.action ≠ .stop).map Step.coord

private theorem inRegion_append (k : Nat) (steps rest : List (Step α)) :
    inRegion k (steps ++ rest) = inRegion k steps ++ inRegion k rest :=
  List.filter_append ..

private theorem inRegion_singleton_of_ne {k : Nat} {step : Step α} (h : step.region ≠ some k) :
    inRegion k [step] = [] := by
  simp [inRegion, h]

private theorem verticesOf_append (k : Nat) (steps rest : List (Step α)) :
    verticesOf k (steps ++ rest) = verticesOf k steps ++ verticesOf k rest := by
  simp [verticesOf, inRegion_append]

private theorem verticesOf_congr {k : Nat} {steps rest : List (Step α)}
    (h : inRegion k rest = inRegion k steps) : verticesOf k rest = verticesOf k steps := by
  rw [verticesOf, h, verticesOf]

/-- What a region tells: the lines on which it was opened and closed, and its vertices by their
number, the first and the last. -/
structure Region.Tells (r : Region α) (opening : Nat) (closing : Option Nat)
    (places : List (Coord α)) : Prop where
  openLine : r.openLine = opening
  closeLine : r.closeLine = closing
  vertices : r.vertices = places.length
  start : r.start = places.head?
  last : r.last = places.getLast?

namespace Region.Tells

variable {r : Region α} {line : Nat} {places : List (Coord α)}

theorem opened (line : Nat) : (Region.opened line : Region α).Tells line none [] :=
  ⟨rfl, rfl, rfl, rfl, rfl⟩

theorem isOpen (h : r.Tells line none places) : r.isOpen := by
  simp [Region.isOpen, h.closeLine]

theorem addVertex (h : r.Tells line none places) (c : Coord α) :
    (r.addVertex c).Tells line none (places ++ [c]) where
  openLine := h.openLine
  closeLine := h.closeLine
  vertices := by simp [Region.addVertex, h.vertices]
  start := by simp [Region.addVertex, h.start, List.head?_append]
  last := by simp [Region.addVertex]

theorem close (h : r.Tells line none places) (closeLine : Nat) :
    ({ r with closeLine := some closeLine } : Region α).Tells line (some closeLine) places :=
  ⟨h.openLine, rfl, h.vertices, h.start, h.last⟩

end Region.Tells

namespace Stream

/-- Whether the tokens leave a region open: the last one that opens or closes a region opens it. -/
def leavesOpen (tokens : List Token) : Bool := (latest Command.region? tokens).getD false

/-- The line of the token that closes the region open before the tokens.  If another region is
opened first, or the stream stops, then it is never closed. -/
def closing? : List Token → Option Nat
  | [] => none
  | token :: rest =>
    match token.command.region? with
    | some true => none
    | some false => some token.line
    | none => if token.isStop then none else closing? rest

/-- What a command does to the regions and to the binding of the pending step. -/
inductive RegionEffect (token : Token) (binding : Option Nat) (r : Regions α) :
    Outcome → Step α → Regions α → Prop
  | opens {step : Step α} :
      token.command = .regionBegin → step.region = some r.regions.length →
        RegionEffect token binding r .next step (r.add token.line)
  | closes {step : Step α} {r' : Regions α} {closed : Region α} :
      token.command = .regionEnd → r.close binding token.line = .ok (r', closed) →
      step.region = none → RegionEffect token binding r .next step r'
  | draws {step : Step α} :
      token.command.region? = none → step.region = binding → step.action ≠ .stop →
        RegionEffect token binding r .complete step (binding.elim r (r.addVertex · step.coord))
  | passes {outcome : Outcome} {step : Step α} :
      token.command.region? = none → step.region = binding → outcome ≠ .complete →
      (outcome = .stop → step.action = .stop) → RegionEffect token binding r outcome step r

private theorem region?_of_isIdle {token : Token} (h : (Command.ofText token.text).isIdle) :
    token.command.region? = none := by
  unfold Token.command
  cases hc : Command.ofText token.text <;> simp_all [Command.isIdle, Command.region?]

variable [Scalar α] {setting : Setting α} {pending step : Step α} {last : Coord α}
  {s t u : Session α} {token : Token} {outcome : Outcome} {cursor final : Cursor α}
  {tokens : List Token} {stopped : Bool} {k : Nat}

theorem Effect.regionEffect (h : Effect setting pending last token s outcome step t) :
    RegionEffect token pending.region s.regions outcome step t.regions := by
  have hother (hc : token.command.region? = none) (hregion : step.region = pending.region)
      (hbooks : t.regions = s.regions) (hne : outcome ≠ .complete)
      (hstop : outcome = .stop → step.action = .stop) :
      RegionEffect token pending.region s.regions outcome step t.regions := by
    rw [hbooks]
    exact .passes hc hregion hne hstop
  cases h with
  | regionBegin hc hregions _ =>
    rw [hregions]
    exact .opens hc rfl
  | regionEnd hc hclose _ => exact .closes hc hclose rfl
  | operation hc _ hentered =>
    rw [hentered.regions]
    exact .draws (by simp [Token.command, hc, Command.region?]) rfl (Command.action_ne_stop hc)
  | repeatOpen hc _ hregions _ =>
    exact hother (by simp [Token.command, hc, Command.region?]) rfl hregions (by simp) (by simp)
  | repeatClose hc hbooks =>
    exact hother (by simp [Token.command, hc, Command.region?]) rfl hbooks.1 (by simp) (by simp)
  | stop hc hbooks =>
    exact hother (by simp [Token.command, hc, Command.region?]) rfl hbooks.1 (by simp) (by simp)
  | idle hidle hbooks =>
    exact hother (region?_of_isIdle hidle) rfl hbooks.1 (by simp) (by simp)
  | interpolation hc =>
    exact hother (by simp [Token.command, hc, Command.region?]) rfl rfl (by simp) (by simp)
  | polarity hc =>
    exact hother (by simp [Token.command, hc, Command.region?]) rfl rfl (by simp) (by simp)
  | quadrant hc =>
    exact hother (by simp [Token.command, hc, Command.region?]) rfl rfl (by simp) (by simp)
  | select hc _ =>
    exact hother (by simp [Token.command, hc, Command.region?]) rfl rfl (by simp) (by simp)

namespace RegionEffect

variable {binding : Option Nat} {r r' : Regions α}

omit [Scalar α] in
theorem length_eq (h : RegionEffect token binding r outcome step r') :
    r'.regions.length = r.regions.length + if token.opensRegion then 1 else 0 := by
  have hclosed (hc : token.command ≠ .regionBegin)
      (hlength : r'.regions.length = r.regions.length) :
      r'.regions.length = r.regions.length + if token.opensRegion then 1 else 0 := by
    simp [Token.opensRegion, hc, hlength]
  have hne (hc : token.command.region? = none) : token.command ≠ .regionBegin := by
    intro hbegin
    simp [hbegin, Command.region?] at hc
  cases h with
  | opens hc _ => simp [Token.opensRegion, hc, Regions.length_add]
  | closes hc hclose _ => exact hclosed (by simp [hc]) (Regions.length_close hclose)
  | draws hc _ _ =>
    apply hclosed (hne hc)
    cases binding with
    | none => rfl
    | some id => exact Regions.length_addVertex r id step.coord
  | passes hc _ _ _ => exact hclosed (hne hc) rfl

omit [Scalar α] in
/-- A region that is not bound stays as it is, and stays unbound. -/
theorem keeps (h : RegionEffect token binding r outcome step r') (hk : k < r.regions.length)
    (hbinding : binding ≠ some k) : r'.get? k = r.get? k ∧ step.region ≠ some k := by
  cases h with
  | opens _ hregion =>
    refine ⟨Regions.get?_add_of_lt hk _, ?_⟩
    rw [hregion]
    intro heq
    exact absurd (Option.some.inj heq) (Nat.ne_of_gt hk)
  | closes _ hclose hregion =>
    obtain ⟨id, region, hid, _, _, _, hr⟩ := Regions.close_eq_ok_iff.mp hclose
    have hne : id ≠ k := by
      intro heq
      exact hbinding (heq ▸ hid)
    refine ⟨?_, by simp [hregion]⟩
    rw [hr]
    exact List.getElem?_set_ne hne
  | draws _ hregion _ =>
    refine ⟨?_, by rwa [hregion]⟩
    cases binding with
    | none => rfl
    | some id =>
      have hne : id ≠ k := by
        intro heq
        exact hbinding (congrArg some heq)
      exact Regions.get?_addVertex_of_ne hne _
  | passes _ hregion _ _ => exact ⟨rfl, by rwa [hregion]⟩

omit [Scalar α] in
/-- The binding after a command. -/
theorem isSome_region (h : RegionEffect token binding r outcome step r') :
    step.region.isSome = token.command.region?.getD binding.isSome := by
  cases h with
  | opens hc hregion => simp [hc, hregion, Command.region?]
  | closes hc _ hregion => simp [hc, hregion, Command.region?]
  | draws hc hregion _ => simp [hc, hregion]
  | passes hc hregion _ _ => simp [hc, hregion]

omit [Scalar α] in
/-- A region that is bound is open. -/
theorem hasOpen (h : RegionEffect token binding r outcome step r') (hopen : r.HasOpen binding) :
    r'.HasOpen step.region := by
  intro k hk
  cases h with
  | opens _ hregion =>
    obtain rfl := Option.some.inj (hregion.symm.trans hk)
    exact ⟨_, Regions.get?_add_length r token.line, rfl⟩
  | closes _ _ hregion =>
    rw [hregion] at hk
    cases hk
  | draws _ hregion _ =>
    obtain rfl := hregion.symm.trans hk
    obtain ⟨region, hget, hregion⟩ := hopen k rfl
    refine ⟨region.addVertex step.coord, ?_, hregion⟩
    simp only [Option.elim_some, Regions.addVertex_of_get? hget hregion]
    exact List.getElem?_set_self (Regions.lt_of_get? hget)
  | passes _ hregion _ _ => exact hopen k (hregion.symm.trans hk)

section

variable {line : Nat} {region : Region α} {places : List (Coord α)}

omit [Scalar α]

private theorem tells_of_bound (h : RegionEffect token (some k) r outcome step r')
    (hget : r.get? k = some region) (htells : region.Tells line none places)
    (hbound : step.region = some k) :
    token.command.region? = none ∧ ∃ region', r'.get? k = some region' ∧
      region'.Tells line none (places ++
        verticesOf k (if outcome = .complete ∨ outcome = .stop then [step] else [])) := by
  have hlt := Regions.lt_of_get? hget
  cases h with
  | opens _ hregion =>
    have heq := Option.some.inj (hbound.symm.trans hregion)
    omega
  | closes _ _ hregion => cases hregion.symm.trans hbound
  | draws hc _ haction =>
    refine ⟨hc, region.addVertex step.coord, ?_, ?_⟩
    · rw [Option.elim_some, Regions.addVertex_of_get? hget htells.isOpen]
      exact List.getElem?_set_self hlt
    · have hown : verticesOf k [step] = [step.coord] := by
        simp [verticesOf, inRegion, hbound, haction]
      rw [if_pos (.inl rfl), hown]
      exact htells.addVertex step.coord
  | passes hc _ hcomplete hstop =>
    refine ⟨hc, region, hget, ?_⟩
    by_cases hout : outcome = .stop
    · have hnone : verticesOf k [step] = [] := by simp [verticesOf, inRegion, hstop hout]
      rwa [if_pos (.inr hout), hnone, List.append_nil]
    · rw [if_neg (by simp [hcomplete, hout])]
      simpa [verticesOf, inRegion] using htells

private theorem tells_of_left (h : RegionEffect token (some k) r outcome step r')
    (hget : r.get? k = some region) (htells : region.Tells line none places)
    (hleft : step.region ≠ some k) (rest : List Token) :
    outcome = .next ∧ ∃ region', r'.get? k = some region' ∧
      region'.Tells line (closing? (token :: rest)) places := by
  have hlt := Regions.lt_of_get? hget
  cases h with
  | opens hc _ =>
    refine ⟨rfl, region, ?_, ?_⟩
    · rw [Regions.get?_add_of_lt hlt, hget]
    · rwa [closing?, hc]
  | closes hc hclose _ =>
    obtain ⟨_, other, hid, hother, -, rfl, rfl⟩ := Regions.close_eq_ok_iff.mp hclose
    obtain rfl := Option.some.inj hid
    obtain rfl := Option.some.inj (hget.symm.trans hother)
    refine ⟨rfl, _, List.getElem?_set_self hlt, ?_⟩
    rw [closing?, hc]
    exact htells.close token.line
  | draws _ hregion _ => exact absurd hregion hleft
  | passes _ hregion _ _ => exact absurd hregion hleft

end

end RegionEffect

private theorem Cursor.region_follow (cursor : Cursor α) (outcome : Outcome) (step : Step α) :
    (cursor.follow outcome step).pending.region = step.region := by
  cases outcome <;> rfl

/-- A region that is not bound is left alone by all further commands. -/
theorem Advances.keeps (h : Advances setting cursor s tokens final stopped t)
    (hk : k < s.regions.regions.length) (hbinding : cursor.pending.region ≠ some k) :
    t.regions.get? k = s.regions.get? k ∧ inRegion k final.steps = inRegion k cursor.steps := by
  have hfollow {cursor : Cursor α} {outcome : Outcome} {step : Step α}
      (hstep : step.region ≠ some k) :
      inRegion k (cursor.follow outcome step).steps = inRegion k cursor.steps := by
    rw [Cursor.steps_follow, inRegion_append]
    split
    · rw [inRegion_singleton_of_ne hstep, List.append_nil]
    · exact List.append_nil _
  induction h with
  | done hs => exact ⟨by rw [hs.1], rfl⟩
  | @step cursor final s t u token rest outcome step stopped he _ _ ih =>
    have heffect := he.regionEffect
    obtain ⟨hget, hstep⟩ := heffect.keeps hk hbinding
    have hlength := heffect.length_eq
    have hrest := ih (by omega) (by rwa [Cursor.region_follow])
    exact ⟨hrest.1.trans hget, hrest.2.trans (hfollow hstep)⟩
  | stop he hs =>
    obtain ⟨hget, hstep⟩ := he.regionEffect.keeps hk hbinding
    exact ⟨by rw [hs.1, hget], hfollow hstep⟩

/-- The region that is bound follows the steps until it is closed or left. -/
theorem Advances.tells (h : Advances setting cursor s tokens final stopped t) {line : Nat}
    {region : Region α} (hbinding : cursor.pending.region = some k)
    (hget : s.regions.get? k = some region)
    (htells : region.Tells line none (verticesOf k cursor.steps)) :
    ∃ region', t.regions.get? k = some region' ∧
      region'.Tells line (closing? tokens) (verticesOf k final.steps) := by
  induction h generalizing region with
  | done hs => exact ⟨region, by rw [hs.1, hget], htells⟩
  | @step cursor final s t u token rest outcome step stopped he hne hrest ih =>
    have heffect := he.regionEffect
    rw [hbinding] at heffect
    by_cases hbound : step.region = some k
    · have hstop : token.isStop = false := Bool.eq_false_iff.mpr fun h => hne (he.stop_iff.mpr h)
      obtain ⟨hc, region', hget', htells'⟩ := heffect.tells_of_bound hget htells hbound
      rw [closing?, hc, hstop]
      apply ih ((Cursor.region_follow _ _ _).trans hbound) hget'
      rwa [Cursor.steps_follow, verticesOf_append]
    · obtain ⟨hnext, region', hget', htells'⟩ := heffect.tells_of_left hget htells hbound rest
      have hkept := hrest.keeps (Regions.lt_of_get? hget') (by rwa [Cursor.region_follow])
      refine ⟨region', hkept.1.trans hget', ?_⟩
      rw [verticesOf_congr hkept.2, Cursor.steps_follow, hnext]
      simpa using htells'
  | @stop cursor s t u token rest step he hs =>
    have heffect := he.regionEffect
    rw [hbinding] at heffect
    by_cases hbound : step.region = some k
    · obtain ⟨hc, region', hget', htells'⟩ := heffect.tells_of_bound hget htells hbound
      refine ⟨region', by rw [hs.1, hget'], ?_⟩
      rw [closing?, hc, he.stop_iff.mp rfl, Cursor.steps_follow, verticesOf_append]
      exact htells'
    · -- no stop leaves a region
      cases (heffect.tells_of_left hget htells hbound rest).1

/-- The region that the pending step is bound to is open. -/
theorem Advances.hasOpen (h : Advances setting .initial s tokens final stopped t) :
    t.regions.HasOpen final.pending.region := by
  have hbooks (cursor : Cursor α) (s t : Session α) (hsame : s.SameBooks t)
      (hopen : s.regions.HasOpen cursor.pending.region) :
      t.regions.HasOpen cursor.pending.region := by
    rwa [hsame.1]
  have hkeep (cursor : Cursor α) (token : Token) (s : Session α) (outcome : Outcome)
      (step : Step α) (t : Session α)
      (he : Effect setting cursor.pending cursor.last.coord token s outcome step t)
      (hopen : s.regions.HasOpen cursor.pending.region) :
      t.regions.HasOpen (cursor.follow outcome step).pending.region := by
    rw [Cursor.region_follow]
    exact he.regionEffect.hasOpen hopen
  apply h.invariant hbooks hkeep
  intro k hk
  cases hk

/-- A command that opens a region makes one that follows the further steps. -/
theorem Advances.tells_of_opens (h : Advances setting cursor s (token :: tokens) final stopped t)
    (hopens : token.opensRegion)
    (hfresh : inRegion s.regions.regions.length cursor.steps = []) :
    ∃ region, t.regions.get? s.regions.regions.length = some region ∧
      region.Tells token.line (closing? tokens)
        (verticesOf s.regions.regions.length final.steps) := by
  have hbegin : token.command = .regionBegin := of_decide_eq_true hopens
  have hregion? : token.command.region? = some true := by simp [hbegin, Command.region?]
  cases h with
  | stop he _ =>
    have hstop : token.command = .stop := of_decide_eq_true (he.stop_iff.mp rfl)
    rw [hbegin] at hstop
    cases hstop
  | @step _ _ _ _ u _ _ outcome step _ he _ hrest =>
    have heffect := he.regionEffect
    generalize hu : u.regions = r at heffect
    cases heffect with
    | opens _ hregion =>
      apply hrest.tells ((Cursor.region_follow _ _ _).trans hregion)
        (hu ▸ Regions.get?_add_length _ _)
      have hnone : verticesOf s.regions.regions.length (cursor.follow .next step).steps = [] := by
        simp [verticesOf, Cursor.steps_follow, hfresh]
      rw [hnone]
      exact .opened token.line
    | closes hc _ _ => simp [hbegin] at hc
    | draws hc _ _ => simp [hregion?] at hc
    | passes hc _ _ _ => simp [hregion?] at hc

private theorem isSome_region_append {before : List Token}
    (h : Advances setting cursor s tokens final stopped t) (hstopped : stopped = false)
    (hbefore : cursor.pending.region.isSome = leavesOpen before) :
    final.pending.region.isSome = leavesOpen (before ++ tokens) := by
  induction h generalizing before with
  | done _ => rwa [List.append_nil]
  | step he _ _ ih =>
    rw [List.append_cons]
    apply ih hstopped
    rw [Cursor.region_follow, he.regionEffect.isSome_region, hbefore]
    unfold leavesOpen
    rw [latest_concat, Option.getD_or]
  | stop _ _ => cases hstopped

/-- The pending step is bound if and only if the tokens leave a region open. -/
theorem Advances.isSome_region (h : Advances setting .initial s tokens final false t) :
    final.pending.region.isSome = leavesOpen tokens :=
  have hstart : (.initial : Cursor α).pending.region.isSome = leavesOpen [] := rfl
  isSome_region_append h rfl hstart

end Stream

end Gerber
