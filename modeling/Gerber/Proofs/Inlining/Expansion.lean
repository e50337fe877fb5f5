import Gerber.Inlining
import Gerber.Proofs.Run
import Gerber.Scalar.Float

/-!
# Inlining is recursive expansion

A flash of a block stands for the steps of the block, and a block flash among these stands for
the steps of its own block in turn.  Read this way, flash by flash and from the outside in, a list
of steps has at most one expansion.  Inlining replaces all flashes of a list at once, pass by pass.
It comes to the same steps, it settles only if blocks are nested no deeper than passes are allowed,
and without step-and-repeat bindings nothing else can keep it from settling.
-/

namespace Gerber

variable {α : Type}

/-- The steps of a block that its flash stands for: all after the root step that do not stop. -/
def BlockAperture.kept (block : BlockAperture α) : List (Step α) :=
  block.steps.tail.filter fun step => step.action ≠ .stop

namespace Inlining

/-- The step is a flash, and its aperture is the block. -/
def Flashes (apertures : Apertures α) (step : Step α) (block : BlockAperture α) : Prop :=
  step.action = .flash ∧ ∃ code, step.aperture = some code ∧ apertures.block? code = some block

theorem flashed?_eq_some_iff {apertures : Apertures α} {step : Step α} {block : BlockAperture α} :
    flashed? apertures step = some block ↔ Flashes apertures step block := by
  unfold flashed? Flashes
  cases step.action <;> cases step.aperture <;> simp

theorem flashed?_eq_none_iff {apertures : Apertures α} {step : Step α} :
    flashed? apertures step = none ↔ ∀ block, ¬ Flashes apertures step block := by
  simp only [Option.eq_none_iff_forall_ne_some, ne_eq, flashed?_eq_some_iff]

theorem Flashes.unique {apertures : Apertures α} {step : Step α} {b b' : BlockAperture α}
    (h : Flashes apertures step b) (h' : Flashes apertures step b') : b' = b := by
  rw [← flashed?_eq_some_iff] at h h'
  exact Option.some.inj (h'.symm.trans h)

/-- A flash brings up the steps of its block, and what flashes among these bring up. -/
inductive Leads (apertures : Apertures α) : Step α → Step α → Prop
  | direct {step inner : Step α} {block : BlockAperture α} :
      Flashes apertures step block → inner ∈ block.kept → Leads apertures step inner
  | nested {step mid inner : Step α} {block : BlockAperture α} :
      Flashes apertures step block → mid ∈ block.kept → Leads apertures mid inner →
        Leads apertures step inner

/-- A chain of nested block flashes that starts with the step, and the number of its flashes. -/
inductive Chain (apertures : Apertures α) : Step α → Nat → Prop
  | flash {step : Step α} {block : BlockAperture α} :
      Flashes apertures step block → Chain apertures step 1
  | nested {step inner : Step α} {block : BlockAperture α} {n : Nat} :
      Flashes apertures step block → inner ∈ block.kept → Chain apertures inner n →
        Chain apertures step (n + 1)

/-- No chain of nested block flashes that starts in the list has more than `n` flashes. -/
def DepthAtMost (apertures : Apertures α) (n : Nat) (steps : List (Step α)) : Prop :=
  ∀ step ∈ steps, ∀ m, Chain apertures step m → m ≤ n

/-- No step of the list, and none that its flashes bring up, is bound to a step-and-repeat
block. -/
def Unbound (apertures : Apertures α) (steps : List (Step α)) : Prop :=
  ∀ step ∈ steps, step.stepRepeat = none ∧
    ∀ inner, Leads apertures step inner → inner.stepRepeat = none

section

variable {apertures : Apertures α} {steps : List (Step α)}

theorem depthAtMost_zero_iff :
    DepthAtMost apertures 0 steps ↔ ∀ step ∈ steps, flashed? apertures step = none := by
  constructor
  · intro h step hm
    rw [flashed?_eq_none_iff]
    intro block hf
    exact absurd (h step hm 1 (.flash hf)) (by decide)
  · intro h step hm n hn
    have hnone := flashed?_eq_none_iff.mp (h step hm)
    cases hn with
    | flash hf => exact absurd hf (hnone _)
    | nested hf _ _ => exact absurd hf (hnone _)

theorem DepthAtMost.mono {n m : Nat} (h : DepthAtMost apertures n steps) (hle : n ≤ m) :
    DepthAtMost apertures m steps :=
  fun step hm k hc => Nat.le_trans (h step hm k hc) hle

private theorem unbound_of_blocks (hs : ∀ step ∈ steps, step.stepRepeat = none)
    (hb : ∀ block ∈ apertures.entries.filterMap Aperture.block?,
      ∀ step ∈ block.kept, step.stepRepeat = none) : Unbound apertures steps := by
  intro step hm
  refine ⟨hs step hm, fun inner hl => ?_⟩
  clear hm
  induction hl with
  | direct hf hm =>
    obtain ⟨-, code, -, hblock⟩ := hf
    obtain ⟨a, ha, hshape⟩ := Option.bind_eq_some_iff.mp hblock
    exact hb _ (List.mem_filterMap.mpr ⟨a, List.mem_of_find?_eq_some ha, hshape⟩) _ hm
  | nested _ _ _ ih => exact ih

private theorem Leads.exists_chain {step inner : Step α} {n : Nat} (h : Leads apertures step inner)
    (hc : Chain apertures inner n) : ∃ m, n < m ∧ Chain apertures step m := by
  induction h with
  | direct hf hm => exact ⟨n + 1, Nat.lt_succ_self n, .nested hf hm hc⟩
  | nested hf hm _ ih =>
    obtain ⟨m, hlt, hm'⟩ := ih hc
    exact ⟨m + 1, Nat.lt_succ_of_lt hlt, .nested hf hm hm'⟩

private theorem Leads.chain_one {step inner : Step α} (h : Leads apertures step inner) :
    Chain apertures step 1 := by
  cases h with
  | direct hf _ => exact .flash hf
  | nested hf _ _ => exact .flash hf

private theorem not_depthAtMost_of_cycle {step inner : Step α} (hm : step ∈ steps)
    (hl : Leads apertures step inner) (hcycle : Leads apertures inner inner) (n : Nat) :
    ¬ DepthAtMost apertures n steps := by
  have hlong (k : Nat) : ∃ m, k < m ∧ Chain apertures inner m := by
    induction k with
    | zero => exact ⟨1, Nat.one_pos, hcycle.chain_one⟩
    | succ k ih =>
      obtain ⟨m, hlt, hc⟩ := ih
      obtain ⟨m', hlt', hc'⟩ := hcycle.exists_chain hc
      exact ⟨m', by omega, hc'⟩
  intro hd
  obtain ⟨m, hlt, hc⟩ := hlong n
  obtain ⟨m', hlt', hc'⟩ := hl.exists_chain hc
  have := hd step hm m' hc'
  omega

def flashCount (apertures : Apertures α) (steps : List (Step α)) : Nat :=
  steps.countP fun step => (flashed? apertures step).isSome

theorem flashCount_eq_zero_iff :
    flashCount apertures steps = 0 ↔ ∀ step ∈ steps, flashed? apertures step = none := by
  simp [flashCount, List.countP_eq_zero]

end

variable [Scalar α]

/-- A coordinate of a block, moved to the place of its flash. -/
def seenAt (flash : Step α) (c : Coord α) : Coord α :=
  { c with x := c.x + flash.coord.x, y := c.y + flash.coord.y }

/-- A step of a block as its flash shows it: moved to the flash, and bound to the step-and-repeat
block of the flash if there is one. -/
def seen (flash : Step α) (prev : Coord α) (inner : Step α) : Step α :=
  { inner with
    prev
    coord := seenAt flash inner.coord
    origin := ⟨inner.origin.x + flash.coord.x, inner.origin.y + flash.coord.y⟩
    stepRepeat := flash.stepRepeat.or inner.stepRepeat }

/-- Steps of a block as its flash shows them.  The first starts from the flash, each further one
where the one before it ends. -/
def seenAll (flash : Step α) (inner : List (Step α)) : List (Step α) :=
  List.zipWith (seen flash) (flash.coord :: inner.map fun step => seenAt flash step.coord) inner

/-- The expansion of a list of steps: other steps stay, and a block flash gives way to the
expansion of what it shows of its block. -/
inductive Expansion (apertures : Apertures α) : List (Step α) → List (Step α) → Prop
  | nil : Expansion apertures [] []
  | keep {step : Step α} {rest out : List (Step α)} :
      (∀ block, ¬ Flashes apertures step block) → Expansion apertures rest out →
        Expansion apertures (step :: rest) (step :: out)
  | flash {step : Step α} {block : BlockAperture α} {rest shown out : List (Step α)} :
      Flashes apertures step block → Expansion apertures (seenAll step block.kept) shown →
        Expansion apertures rest out → Expansion apertures (step :: rest) (shown ++ out)

theorem placed_eq_zipWith (flash : Step α) (prev : Coord α) (inner : List (Step α)) :
    placed flash prev inner = List.zipWith (seen flash)
      (prev :: inner.map fun step => seenAt flash step.coord) inner := by
  induction inner generalizing prev with
  | nil => rfl
  | cons step rest ih =>
    rw [placed, ih]
    rfl

private theorem substitute_eq (flash : Step α) (block : BlockAperture α) :
    substitute flash block = seenAll flash block.kept :=
  placed_eq_zipWith ..

theorem length_seenAll (flash : Step α) (inner : List (Step α)) :
    (seenAll flash inner).length = inner.length := by
  simp [seenAll]

private theorem mem_placed {flash step : Step α} {prev : Coord α} {inner : List (Step α)}
    (h : step ∈ placed flash prev inner) : ∃ origin ∈ inner, ∃ p, step = seen flash p origin := by
  induction inner generalizing prev with
  | nil => cases h
  | cons first rest ih =>
    rcases List.mem_cons.mp h with rfl | h
    · exact ⟨first, List.mem_cons_self, prev, rfl⟩
    · obtain ⟨origin, hm, p, rfl⟩ := ih h
      exact ⟨origin, List.mem_cons_of_mem _ hm, p, rfl⟩

private theorem mem_placed_of_mem (flash : Step α) (prev : Coord α) {step : Step α}
    {inner : List (Step α)} (h : step ∈ inner) :
    ∃ p, seen flash p step ∈ placed flash prev inner := by
  induction inner generalizing prev with
  | nil => cases h
  | cons first rest ih =>
    rcases List.mem_cons.mp h with rfl | h
    · exact ⟨prev, List.mem_cons_self⟩
    · obtain ⟨p, hp⟩ := ih _ h
      exact ⟨p, List.mem_cons_of_mem _ hp⟩

theorem mem_seenAll {flash step : Step α} {inner : List (Step α)}
    (h : step ∈ seenAll flash inner) : ∃ origin ∈ inner, ∃ p, step = seen flash p origin :=
  mem_placed (by rwa [placed_eq_zipWith])

private theorem mem_seenAll_of_mem (flash : Step α) {step : Step α} {inner : List (Step α)}
    (h : step ∈ inner) : ∃ p, seen flash p step ∈ seenAll flash inner := by
  obtain ⟨p, hp⟩ := mem_placed_of_mem flash flash.coord h
  exact ⟨p, by rwa [placed_eq_zipWith] at hp⟩

namespace Expansion

variable {apertures : Apertures α}

theorem append {l l' out out' : List (Step α)} (h : Expansion apertures l out)
    (h' : Expansion apertures l' out') : Expansion apertures (l ++ l') (out ++ out') := by
  induction h with
  | nil => exact h'
  | keep hn _ ih => exact .keep hn ih
  | flash hf hs _ _ ih =>
    rw [List.append_assoc]
    exact .flash hf hs ih

theorem exists_of_append {l l' out : List (Step α)} (h : Expansion apertures (l ++ l') out) :
    ∃ left right, out = left ++ right ∧ Expansion apertures l left ∧
      Expansion apertures l' right := by
  induction l generalizing out with
  | nil => exact ⟨[], out, rfl, .nil, h⟩
  | cons step rest ih =>
    cases h with
    | keep hn hr =>
      obtain ⟨left, right, rfl, hl, hr⟩ := ih hr
      exact ⟨step :: left, right, rfl, .keep hn hl, hr⟩
    | flash hf hs hr =>
      obtain ⟨left, right, rfl, hl, hr⟩ := ih hr
      exact ⟨_ ++ left, right, (List.append_assoc ..).symm, .flash hf hs hl, hr⟩

theorem unique {l out out' : List (Step α)} (h : Expansion apertures l out)
    (h' : Expansion apertures l out') : out' = out := by
  induction h generalizing out' with
  | nil =>
    cases h'
    rfl
  | keep hn _ ih =>
    cases h' with
    | keep _ hr => rw [ih hr]
    | flash hf _ _ => exact absurd hf (hn _)
  | flash hf _ _ ihs ihr =>
    cases h' with
    | keep hn _ => exact absurd hf (hn _)
    | flash hf' hs' hr' =>
      obtain rfl := hf.unique hf'
      rw [ihs hs', ihr hr']

/-- A list without block flashes is its own expansion. -/
theorem refl {l : List (Step α)} (h : ∀ step ∈ l, flashed? apertures step = none) :
    Expansion apertures l l := by
  induction l with
  | nil => exact .nil
  | cons step rest ih =>
    refine .keep (flashed?_eq_none_iff.mp (h step List.mem_cons_self)) (ih ?_)
    intro other hm
    exact h other (List.mem_cons_of_mem _ hm)

end Expansion

/-- What a pass makes of a step. -/
def replace (apertures : Apertures α) (step : Step α) : List (Step α) :=
  match flashed? apertures step with
  | none => [step]
  | some block => seenAll step block.kept

/-- What a pass makes of a list of steps. -/
def round (apertures : Apertures α) (steps : List (Step α)) : List (Step α) :=
  steps.flatMap (replace apertures)

variable {apertures : Apertures α} {steps : List (Step α)}

theorem replace_of_none {step : Step α} (h : flashed? apertures step = none) :
    replace apertures step = [step] := by
  simp [replace, h]

theorem replace_of_some {step : Step α} {block : BlockAperture α}
    (h : flashed? apertures step = some block) :
    replace apertures step = seenAll step block.kept := by
  simp [replace, h]

theorem round_cons (step : Step α) (rest : List (Step α)) :
    round apertures (step :: rest) = replace apertures step ++ round apertures rest :=
  List.flatMap_cons

theorem round_append (l l' : List (Step α)) :
    round apertures (l ++ l') = round apertures l ++ round apertures l' :=
  List.flatMap_append

/-- A pass does not change what a list expands to. -/
theorem expansion_round_iff {out : List (Step α)} :
    Expansion apertures (round apertures steps) out ↔ Expansion apertures steps out := by
  induction steps generalizing out with
  | nil => exact Iff.rfl
  | cons step rest ih =>
    rw [round_cons]
    cases h : flashed? apertures step with
    | none =>
      have hn := flashed?_eq_none_iff.mp h
      rw [replace_of_none h, List.singleton_append]
      constructor
      · intro he
        cases he with
        | keep _ hr => exact .keep hn (ih.mp hr)
        | flash hf _ _ => exact absurd hf (hn _)
      · intro he
        cases he with
        | keep _ hr => exact .keep hn (ih.mpr hr)
        | flash hf _ _ => exact absurd hf (hn _)
    | some block =>
      have hf := flashed?_eq_some_iff.mp h
      rw [replace_of_some h]
      constructor
      · intro he
        obtain ⟨shown, out, rfl, hs, hr⟩ := he.exists_of_append
        exact .flash hf hs (ih.mp hr)
      · intro he
        cases he with
        | keep hn _ => exact absurd hf (hn _)
        | flash hf' hs hr =>
          obtain rfl := hf.unique hf'
          exact hs.append (ih.mpr hr)

theorem round_of_no_flash (h : ∀ step ∈ steps, flashed? apertures step = none) :
    round apertures steps = steps := by
  induction steps with
  | nil => rfl
  | cons step rest ih =>
    rw [round_cons, replace_of_none (h step List.mem_cons_self),
      ih fun other hm => h other (List.mem_cons_of_mem _ hm)]
    rfl

theorem pass_cons_none {done rest : List (Step α)} {step : Step α} {count : Nat}
    (h : flashed? apertures step = none) :
    pass apertures done count (step :: rest) = pass apertures (step :: done) count rest := by
  simp only [pass, h]

theorem pass_cons_some {done rest : List (Step α)} {step : Step α} {count : Nat}
    {block : BlockAperture α} (h : flashed? apertures step = some block) :
    pass apertures done count (step :: rest) = (do
      Run.forSome step.stepRepeat (Run.adjustRepeat · ((block.kept.length : Int) - 1))
      pass apertures ((replace apertures step).reverse ++ done) (count + 1) rest) := by
  simp only [pass, h, replace_of_some h, substitute_eq, length_seenAll]
  cases step.stepRepeat <;> simp

theorem pass_yields {done done' : List (Step α)} {count count' : Nat} {s t : Session α}
    (h : (pass apertures done count steps).Yields s (done', count') t) :
    done' = (round apertures steps).reverse ++ done ∧
      count' = count + flashCount apertures steps := by
  induction steps generalizing done count s with
  | nil =>
    simp only [pass, Run.yields_pure, Prod.mk.injEq] at h
    obtain ⟨⟨rfl, rfl⟩, rfl⟩ := h
    exact ⟨rfl, rfl⟩
  | cons step rest ih =>
    rw [round_cons, flashCount, List.countP_cons]
    cases hf : flashed? apertures step with
    | none =>
      rw [pass_cons_none hf] at h
      obtain ⟨rfl, rfl⟩ := ih h
      simp [replace_of_none hf, flashCount]
    | some block =>
      rw [pass_cons_some hf, Run.yields_bind] at h
      obtain ⟨-, u, -, h⟩ := h
      obtain ⟨rfl, rfl⟩ := ih h
      simp [flashCount, Nat.add_assoc, Nat.add_comm 1]

private theorem pass_of_unbound (apertures : Apertures α) (done : List (Step α)) (count : Nat)
    (s : Session α) (h : ∀ step ∈ steps, step.stepRepeat = none) :
    (pass apertures done count steps).Yields s
      ((round apertures steps).reverse ++ done, count + flashCount apertures steps) s := by
  induction steps generalizing done count with
  | nil => simp [pass, round, flashCount]
  | cons step rest ih =>
    have hrest := fun other hm => h other (List.mem_cons_of_mem step hm)
    rw [round_cons, flashCount, List.countP_cons]
    cases hf : flashed? apertures step with
    | none =>
      rw [pass_cons_none hf]
      simpa [replace_of_none hf, flashCount] using ih (step :: done) count hrest
    | some block =>
      rw [pass_cons_some hf, h step List.mem_cons_self]
      have hgo := ih ((replace apertures step).reverse ++ done) (count + 1) hrest
      simpa [flashCount, Nat.add_assoc, Nat.add_comm 1] using hgo

private theorem chain_seen_iff {flash inner : Step α} {p : Coord α} {n : Nat} :
    Chain apertures (seen flash p inner) n ↔ Chain apertures inner n := by
  constructor
  · intro h
    cases h with
    | flash hf => exact .flash hf
    | nested hf hm hn => exact .nested hf hm hn
  · intro h
    cases h with
    | flash hf => exact .flash hf
    | nested hf hm hn => exact .nested hf hm hn

private theorem leads_seen_iff {flash inner other : Step α} {p : Coord α} :
    Leads apertures (seen flash p inner) other ↔ Leads apertures inner other := by
  constructor
  · intro h
    cases h with
    | direct hf hm => exact .direct hf hm
    | nested hf hm hl => exact .nested hf hm hl
  · intro h
    cases h with
    | direct hf hm => exact .direct hf hm
    | nested hf hm hl => exact .nested hf hm hl

/-- A pass takes one flash off every chain. -/
theorem depthAtMost_round_iff {n : Nat} :
    DepthAtMost apertures n (round apertures steps) ↔ DepthAtMost apertures (n + 1) steps := by
  constructor
  · intro h step hm m hc
    cases hc with
    | flash _ => omega
    | @nested _ inner block k hf hi hk =>
      obtain ⟨p, hp⟩ := mem_seenAll_of_mem step hi
      have hr : seen step p inner ∈ round apertures steps := by
        refine List.mem_flatMap.mpr ⟨step, hm, ?_⟩
        rwa [replace_of_some (flashed?_eq_some_iff.mpr hf)]
      exact Nat.succ_le_succ (h _ hr k (chain_seen_iff.mpr hk))
  · intro h step hm m hc
    obtain ⟨flash, hflash, hr⟩ := List.mem_flatMap.mp hm
    cases hf : flashed? apertures flash with
    | none =>
      rw [replace_of_none hf, List.mem_singleton] at hr
      subst hr
      cases hc with
      | flash hf' => exact absurd hf' (flashed?_eq_none_iff.mp hf _)
      | nested hf' _ _ => exact absurd hf' (flashed?_eq_none_iff.mp hf _)
    | some block =>
      rw [replace_of_some hf] at hr
      obtain ⟨inner, hi, p, rfl⟩ := mem_seenAll hr
      have hn := Chain.nested (flashed?_eq_some_iff.mp hf) hi (chain_seen_iff.mp hc)
      exact Nat.le_of_succ_le_succ (h flash hflash _ hn)

private theorem unbound_round (h : Unbound apertures steps) :
    Unbound apertures (round apertures steps) := by
  intro step hm
  obtain ⟨flash, hflash, hr⟩ := List.mem_flatMap.mp hm
  obtain ⟨hnone, hleads⟩ := h flash hflash
  cases hf : flashed? apertures flash with
  | none =>
    rw [replace_of_none hf, List.mem_singleton] at hr
    subst hr
    exact ⟨hnone, hleads⟩
  | some block =>
    rw [replace_of_some hf] at hr
    obtain ⟨inner, hi, p, rfl⟩ := mem_seenAll hr
    have hblock := flashed?_eq_some_iff.mp hf
    constructor
    · simp [seen, hnone, hleads inner (.direct hblock hi)]
    · intro other hl
      exact hleads other (.nested hblock hi (leads_seen_iff.mp hl))

private theorem pass_of_no_flash (h : flashCount apertures steps = 0) (s : Session α) :
    (pass apertures [] 0 steps).Yields s (steps.reverse, 0) s := by
  have hpass (done : List (Step α)) (hn : ∀ step ∈ steps, flashed? apertures step = none) :
      pass apertures done 0 steps = pure (steps.reverse ++ done, 0) := by
    clear h
    induction steps generalizing done with
    | nil => rfl
    | cons step rest ih =>
      rw [pass_cons_none (hn step List.mem_cons_self),
        ih _ fun other hm => hn other (List.mem_cons_of_mem _ hm)]
      simp
  rw [hpass [] (flashCount_eq_zero_iff.mp h), List.append_nil]
  exact Run.yields_pure.mpr ⟨rfl, rfl⟩

theorem passes_of_no_flash (h : flashCount apertures steps = 0) (limit left : Nat)
    (s : Session α) : (passes apertures limit left steps).Yields s steps s := by
  rw [passes, Run.yields_bind]
  refine ⟨_, s, pass_of_no_flash h s, ?_⟩
  simp

def noted (limit left count : Nat) (s : Session α) : Session α :=
  { s with log := .inlined (limit - left + 1) count :: s.log }

theorem yields_passes_iff {limit left : Nat} {out : List (Step α)} {s t : Session α}
    (h : flashCount apertures steps ≠ 0) :
    (passes apertures limit left steps).Yields s out t ↔
      ∃ n u, left = n + 1 ∧
        (pass apertures [] 0 steps).Yields s
          ((round apertures steps).reverse, flashCount apertures steps) u ∧
        (passes apertures limit n (round apertures steps)).Yields
          (noted limit left (flashCount apertures steps) u) out t := by
  rw [passes, Run.yields_bind]
  constructor
  · rintro ⟨⟨done, count⟩, u, hp, hrest⟩
    obtain ⟨rfl, rfl⟩ := pass_yields hp
    simp only [List.append_nil, Nat.zero_add] at hp hrest
    simp only [h, if_false, List.reverse_reverse, Run.yields_bind, Run.yields_note] at hrest
    obtain ⟨-, v, rfl, hrest⟩ := hrest
    cases left with
    | zero => exact absurd hrest Run.yields_fail
    | succ n => exact ⟨n, u, rfl, hp, hrest⟩
  · rintro ⟨n, u, rfl, hp, hrest⟩
    refine ⟨_, u, hp, ?_⟩
    simp only [h, if_false, List.reverse_reverse, Run.yields_bind, Run.yields_note]
    exact ⟨(), _, rfl, hrest⟩

theorem fails_passes_iff {limit left : Nat} {e : Error} {s t : Session α}
    (h : flashCount apertures steps ≠ 0) :
    (passes apertures limit left steps).Fails s e t ↔
      (pass apertures [] 0 steps).Fails s e t ∨
      ∃ u, (pass apertures [] 0 steps).Yields s
          ((round apertures steps).reverse, flashCount apertures steps) u ∧
        (left = 0 ∧ e = { fault := .unwindLimit limit } ∧
            t = noted limit left (flashCount apertures steps) u ∨
          ∃ n, left = n + 1 ∧ (passes apertures limit n (round apertures steps)).Fails
            (noted limit left (flashCount apertures steps) u) e t) := by
  rw [passes, Run.fails_bind]
  refine or_congr_right ⟨?_, ?_⟩
  · rintro ⟨⟨done, count⟩, u, hp, hrest⟩
    obtain ⟨rfl, rfl⟩ := pass_yields hp
    simp only [List.append_nil, Nat.zero_add] at hp hrest
    simp only [h, if_false, List.reverse_reverse, Run.fails_bind, Run.fails_note, false_or,
      Run.yields_note] at hrest
    obtain ⟨-, v, rfl, hrest⟩ := hrest
    refine ⟨u, hp, ?_⟩
    cases left with
    | zero => exact .inl ⟨rfl, Run.fails_fail.mp hrest⟩
    | succ n => exact .inr ⟨n, rfl, hrest⟩
  · rintro ⟨u, hp, hrest⟩
    refine ⟨_, u, hp, ?_⟩
    simp only [h, if_false, List.reverse_reverse, Run.fails_bind, Run.fails_note, false_or,
      Run.yields_note]
    refine ⟨(), _, rfl, ?_⟩
    rcases hrest with ⟨rfl, rfl, rfl⟩ | ⟨n, rfl, hrest⟩
    · exact Run.fails_fail.mpr ⟨rfl, rfl⟩
    · exact hrest

/-- Passes that settle: each of them replaces something, until no block flash is left. -/
inductive Settles (apertures : Apertures α) (limit : Nat) :
    Nat → List (Step α) → Session α → List (Step α) → Session α → Prop
  | done {left : Nat} {steps : List (Step α)} {s : Session α} :
      flashCount apertures steps = 0 → Settles apertures limit left steps s steps s
  | pass {left : Nat} {steps out : List (Step α)} {s t u : Session α} :
      (pass apertures [] 0 steps).Yields s
        ((round apertures steps).reverse, flashCount apertures steps) u →
      Settles apertures limit left (round apertures steps)
        (noted limit (left + 1) (flashCount apertures steps) u) out t →
        Settles apertures limit (left + 1) steps s out t

theorem settles_of_passes {limit left : Nat} {steps out : List (Step α)} {s t : Session α}
    (h : (passes apertures limit left steps).Yields s out t) :
    Settles apertures limit left steps s out t := by
  by_cases hz : flashCount apertures steps = 0
  · obtain ⟨rfl, rfl⟩ := (passes_of_no_flash hz limit left s).unique h
    exact .done hz
  · obtain ⟨n, u, rfl, hpass, hrest⟩ := (yields_passes_iff hz).mp h
    exact .pass hpass (settles_of_passes hrest)

theorem Settles.expansion {limit left : Nat} {out : List (Step α)} {s t : Session α}
    (h : Settles apertures limit left steps s out t) :
    Expansion apertures steps out ∧ DepthAtMost apertures left steps := by
  induction h with
  | done hz =>
    rw [flashCount_eq_zero_iff] at hz
    exact ⟨.refl hz, (depthAtMost_zero_iff.mpr hz).mono (Nat.zero_le _)⟩
  | pass _ _ ih =>
    obtain ⟨he, hd⟩ := ih
    exact ⟨expansion_round_iff.mp he, depthAtMost_round_iff.mp hd⟩

/-- Without bindings every pass goes through, so the depth alone decides whether passes settle. -/
private theorem passes_of_unbound (limit left : Nat) (s : Session α) (h : Unbound apertures steps) :
    (DepthAtMost apertures left steps →
      ∃ out t, (passes apertures limit left steps).Yields s out t) ∧
    (¬ DepthAtMost apertures left steps →
      ∃ t, (passes apertures limit left steps).Fails s { fault := .unwindLimit limit } t) := by
  have hp (steps : List (Step α)) (s : Session α) (h : Unbound apertures steps) :=
    pass_of_unbound apertures [] 0 s fun step hm => (h step hm).1
  simp only [List.append_nil, Nat.zero_add] at hp
  induction left generalizing steps s with
  | zero =>
    by_cases hz : flashCount apertures steps = 0
    · have hd := depthAtMost_zero_iff.mpr (flashCount_eq_zero_iff.mp hz)
      exact ⟨fun _ => ⟨steps, s, passes_of_no_flash hz limit 0 s⟩, fun hn => absurd hd hn⟩
    · constructor
      · intro hd
        exact absurd (flashCount_eq_zero_iff.mpr (depthAtMost_zero_iff.mp hd)) hz
      · intro _
        exact ⟨_, (fails_passes_iff hz).mpr (.inr ⟨s, hp steps s h, .inl ⟨rfl, rfl, rfl⟩⟩)⟩
  | succ left ih =>
    by_cases hz : flashCount apertures steps = 0
    · have hd := depthAtMost_zero_iff.mpr (flashCount_eq_zero_iff.mp hz)
      exact ⟨fun _ => ⟨steps, s, passes_of_no_flash hz limit (left + 1) s⟩,
        fun hn => absurd (hd.mono (Nat.zero_le _)) hn⟩
    · obtain ⟨hok, hfail⟩ := ih (noted limit (left + 1) (flashCount apertures steps) s)
        (unbound_round h)
      rw [depthAtMost_round_iff] at hok hfail
      constructor
      · intro hd
        obtain ⟨out, t, hrest⟩ := hok hd
        exact ⟨out, t, (yields_passes_iff hz).mpr ⟨left, s, rfl, hp steps s h, hrest⟩⟩
      · intro hd
        obtain ⟨t, hrest⟩ := hfail hd
        exact ⟨t, (fails_passes_iff hz).mpr (.inr ⟨s, hp steps s h, .inr ⟨left, rfl, hrest⟩⟩)⟩

/-- Inlining comes to the one expansion of the steps.  It settles only if block flashes are nested
at most `limit` deep, and where no step is bound to a step-and-repeat block it settles exactly
then.  A flash that brings up itself is nested without end. -/
theorem inline_expansion (apertures : Apertures α) (limit : Nat) (steps : List (Step α))
    (s : Session α) :
    (∀ out t, (inline apertures limit steps).Yields s out t →
      (∀ out', Expansion apertures steps out' ↔ out' = out) ∧
        DepthAtMost apertures limit steps) ∧
    (Unbound apertures steps →
      (DepthAtMost apertures limit steps →
        ∃ out t, (inline apertures limit steps).Yields s out t) ∧
      (¬ DepthAtMost apertures limit steps →
        ∃ t, (inline apertures limit steps).Fails s { fault := .unwindLimit limit } t)) ∧
    (∀ step ∈ steps, ∀ inner, Leads apertures step inner → Leads apertures inner inner →
      ¬ DepthAtMost apertures limit steps) := by
  refine ⟨?_, passes_of_unbound limit limit s, ?_⟩
  · intro out t h
    obtain ⟨he, hd⟩ := (settles_of_passes h).expansion
    exact ⟨fun out' => ⟨he.unique, fun heq => heq ▸ he⟩, hd⟩
  · intro step hm inner hl hcycle
    exact not_depthAtMost_of_cycle hm hl hcycle limit

/-- Blocks that flash each other: D21 flashes D20, which flashes D10 twice; D22 flashes itself. -/
def nestedBlocks : Apertures Float :=
  let flash (code : Nat) (x y : Float) : Step Float :=
    { Step.root with action := .flash, aperture := some code, coord := ⟨x, y, 0, 0, 1⟩ }
  let block (code : Nat) (steps : List (Step Float)) : Aperture Float :=
    ⟨code, .block ⟨1, [], Step.root :: steps⟩⟩
  ⟨[⟨10, .circle 0.1 none⟩, block 20 [flash 10 1 0, flash 10 2 0], block 21 [flash 20 0 5],
    block 22 [flash 22 1 1]]⟩

def oneFlash (code : Nat) : List (Step Float) :=
  [Step.root,
    { Step.root with action := .flash, aperture := some code, coord := ⟨10, 20, 0, 0, 1⟩ }]

theorem inline_expansion_nestedBlocks :
    (∃ out t, (inline nestedBlocks 2 (oneFlash 21)).Yields .initial out t ∧
      Expansion nestedBlocks (oneFlash 21) out ∧
      out.tail.map (fun step => (step.aperture, step.coord.x, step.coord.y)) =
        [(some 10, 11, 25), (some 10, 12, 25)] ∧
      out.tail.map (fun step => (step.prev.x, step.prev.y, step.origin.x, step.origin.y)) =
        [(10, 25, 10, 25), (11, 25, 10, 25)]) ∧
    (∃ t, (inline nestedBlocks 1 (oneFlash 21)).Fails .initial { fault := .unwindLimit 1 } t) ∧
    ∃ t, (inline nestedBlocks 64 (oneFlash 22)).Fails .initial { fault := .unwindLimit 64 } t := by
  have hun (code : Nat) : Unbound nestedBlocks (oneFlash code) := by
    refine unbound_of_blocks (by simp [oneFlash, Step.root]) ?_
    change ∀ block ∈ [_, _, _], _
    simp [BlockAperture.kept, Step.root]
  refine ⟨?_, ?_, ?_⟩
  · obtain ⟨hex, hok, -⟩ := inline_expansion nestedBlocks 2 (oneFlash 21) .initial
    have hd : DepthAtMost nestedBlocks 2 (oneFlash 21) :=
      depthAtMost_round_iff.mp (depthAtMost_round_iff.mp
        (depthAtMost_zero_iff.mpr (flashCount_eq_zero_iff.mp rfl)))
    obtain ⟨out, t, h⟩ := (hok (hun 21)).1 hd
    have hshown : ((inline nestedBlocks 2 (oneFlash 21)).outcome .initial).1.toOption.map
        (fun out => (out.tail.map fun step => (step.aperture, step.coord.x, step.coord.y),
          out.tail.map fun step => (step.prev.x, step.prev.y, step.origin.x, step.origin.y))) =
        some ([(some 10, 11, 25), (some 10, 12, 25)], [(10, 25, 10, 25), (11, 25, 10, 25)]) := by
      decide +kernel
    rw [show (inline nestedBlocks 2 (oneFlash 21)).outcome .initial = _ from h] at hshown
    exact ⟨out, t, h, ((hex out t h).1 out).mpr rfl, Prod.mk.inj (Option.some.inj hshown)⟩
  · obtain ⟨-, hok, -⟩ := inline_expansion nestedBlocks 1 (oneFlash 21) .initial
    refine (hok (hun 21)).2 fun hd => ?_
    have hz := depthAtMost_zero_iff.mp (depthAtMost_round_iff.mpr hd)
    exact absurd (flashCount_eq_zero_iff.mpr hz) (by decide)
  · obtain ⟨-, hok, hcycle⟩ := inline_expansion nestedBlocks 64 (oneFlash 22) .initial
    have hself (step : Step Float) (h : flashed? nestedBlocks step = nestedBlocks.block? 22) :
        Leads nestedBlocks step _ :=
      .direct (flashed?_eq_some_iff.mp h) (List.mem_singleton_self _)
    exact (hok (hun 22)).2 (hcycle _ (List.mem_cons_of_mem _ (List.mem_singleton_self _)) _
      (hself _ rfl) (hself _ rfl))

end Inlining

end Gerber
