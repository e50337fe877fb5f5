import Gerber.Proofs.Definitions.Extraction
import Gerber.Proofs.Inlining.Expansion
import Gerber.Proofs.Stream.References
import Mathlib.Logic.Relation

/-!
# The order of blocks

When a block is closed, its commands can select what is in the table of apertures by then: blocks
that have been closed before, but not the block itself.  If no code is defined twice, these are what
the codes mean in the end.  So the blocks of a file refer to each other only backwards in the order
in which they are closed, and they are nested at most as deep as there are blocks.
-/

namespace Gerber

variable {α : Type}

/-- The code of a complete `%AD` command. -/
def Aperture.codeOf? (source : Text) : Option Nat :=
  ((source.after? "%ADD".toList).bind fun t => Text.before? t "*%".toList).bind fun body =>
    (code? body).toOption.map Prod.fst

private theorem Aperture.codeOf?_of_ofCommand [Scalar α] {source : Text} {format : Format}
    {macros : Macros α} {a : Aperture α} (h : ofCommand source format macros = .ok a) :
    codeOf? source = some a.code := by
  unfold ofCommand at h
  unfold codeOf?
  simp only at h
  split at h
  · cases h
  · rename_i body hbody
    rw [hbody, Option.bind_some]
    rw [Except.bind_eq_ok] at h
    obtain ⟨⟨code, rest⟩, hcode, h⟩ := h
    rw [Except.mapError_eq_ok] at hcode
    rw [hcode]
    simp only at h
    split at h
    · cases h
    · split at h
      · cases h
      · rw [Except.bind_eq_ok] at h
        obtain ⟨shape, -, h⟩ := h
        cases h
        rfl

/-- The code that a command defines, which is that of an aperture or of the block that it opens. -/
def Token.definedCode? (token : Token) : Option Nat :=
  match DefinitionKind.ofText? token.text, token.directive? with
  | some .aperture, _ => Aperture.codeOf? token.text
  | some .block, some (.opening code) => some code
  | _, _ => none

def definedCodes (tokens : List Token) : List Nat := tokens.filterMap Token.definedCode?

private theorem definedCodes_concat (tokens : List Token) (token : Token) :
    definedCodes (tokens ++ [token]) = definedCodes tokens ++ token.definedCode?.toList := by
  unfold definedCodes
  rw [List.filterMap_append]
  cases hcode : token.definedCode? <;> simp [hcode]

namespace Apertures

variable {table : Apertures α} {a : Aperture α} {code : Nat}

private theorem defines_iff : table.Defines code ↔ code ∈ table.codes := by
  have hfind : table.Defines code ↔ (table.get? code).isSome := Option.isSome_iff_exists.symm
  rw [hfind, get?, List.find?_isSome, codes, List.mem_map]
  simp

private theorem codes_insert {entries : List (Aperture α)}
    (h : a.code ∉ entries.map Aperture.code) :
    ((insert a entries).map Aperture.code).Perm (a.code :: entries.map Aperture.code) := by
  induction entries with
  | nil => exact .refl _
  | cons b rest ih =>
    rw [List.map_cons, List.mem_cons, not_or] at h
    rw [insert]
    split
    · exact .refl _
    · rw [if_neg h.1]
      exact ((ih h.2).cons b.code).trans (.swap ..)

private theorem codes_define (h : ¬ table.Defines a.code) :
    (table.define a).codes.Perm (a.code :: table.codes) :=
  codes_insert (defines_iff.not.mp h)

private theorem block?_define_self : (table.define a).block? a.code = a.block? := by
  simp [block?, get?_define]

private theorem block?_define_of_ne (h : a.code ≠ code) :
    (table.define a).block? code = table.block? code := by
  simp [block?, get?_define, h]

private theorem defines_of_block? {block : BlockAperture α} (h : table.block? code = some block) :
    table.Defines code := by
  obtain ⟨a, ha, -⟩ := Option.bind_eq_some_iff.mp h
  exact ⟨a, ha⟩

end Apertures

namespace Inlining

/-- A step of the block of one code flashes the block of another. -/
def References (apertures : Apertures α) (code other : Nat) : Prop :=
  ∃ block step inner, apertures.block? code = some block ∧ step ∈ block.steps ∧
    Flashes apertures step inner ∧ step.aperture = some other

/-- The blocks of a table, in an order in which each refers only to those before it. -/
structure Ordered (apertures : Apertures α) (codes : List Nat) : Prop where
  mem_iff : ∀ code, code ∈ codes ↔ (apertures.block? code).isSome
  before : ∀ front code back, codes = front ++ code :: back →
    ∀ other, References apertures code other → other ∈ front

/-- The apertures of steps are in the table. -/
def Anchored (apertures : Apertures α) (steps : List (Step α)) : Prop :=
  ∀ step ∈ steps, ∀ code, step.aperture = some code → apertures.Defines code

private theorem Flashes.exists_code {apertures : Apertures α} {step : Step α}
    {block : BlockAperture α} (h : Flashes apertures step block) :
    ∃ code, step.aperture = some code ∧ apertures.block? code = some block :=
  h.2

theorem Chain.flashes {apertures : Apertures α} {step : Step α} {n : Nat}
    (h : Chain apertures step n) : ∃ block, Flashes apertures step block := by
  cases h with
  | flash hf => exact ⟨_, hf⟩
  | nested hf _ _ => exact ⟨_, hf⟩

namespace Ordered

variable {apertures : Apertures α} {codes : List Nat}

private theorem chain_le (h : Ordered apertures codes) {step : Step α} {n code : Nat}
    (hc : Chain apertures step n) (hcode : step.aperture = some code) {front back : List Nat}
    (hsplit : codes = front ++ code :: back) : n ≤ front.length + 1 := by
  induction hc generalizing code front back with
  | flash _ => exact Nat.le_add_left 1 _
  | @nested step inner block n hf hmem hinner ih =>
    obtain ⟨-, own, hown, hblock⟩ := hf
    cases hcode.symm.trans hown
    obtain ⟨innerBlock, hflash⟩ := hinner.flashes
    obtain ⟨other, hother, -⟩ := hflash.exists_code
    have hstep : inner ∈ block.steps := List.mem_of_mem_tail (List.mem_of_mem_filter hmem)
    have hfront := h.before _ _ _ hsplit other ⟨block, inner, _, hblock, hstep, hflash, hother⟩
    obtain ⟨first, last, rfl⟩ := List.append_of_mem hfront
    rw [List.append_assoc, List.cons_append] at hsplit
    have hle := ih hother hsplit
    rw [List.length_append, List.length_cons]
    omega

/-- Blocks are nested at most as deep as there are blocks. -/
theorem depthAtMost (h : Ordered apertures codes) (steps : List (Step α)) :
    DepthAtMost apertures codes.length steps := by
  intro step _ n hc
  obtain ⟨block, hflash⟩ := hc.flashes
  obtain ⟨code, hcode, hblock⟩ := hflash.exists_code
  obtain ⟨front, back, hsplit⟩ :=
    List.append_of_mem ((h.mem_iff code).mpr (Option.isSome_iff_exists.mpr ⟨block, hblock⟩))
  have hle := h.chain_le hc hcode hsplit
  rw [hsplit, List.length_append, List.length_cons]
  omega

private theorem mem_of_references (h : Ordered apertures codes) {code other : Nat}
    (href : References apertures code other) : code ∈ codes := by
  obtain ⟨block, _, _, hblock, -⟩ := href
  exact (h.mem_iff code).mpr (Option.isSome_iff_exists.mpr ⟨block, hblock⟩)

private theorem before_of_transGen (h : Ordered apertures codes) {code other : Nat}
    (href : Relation.TransGen (References apertures) code other) {front back : List Nat}
    (hsplit : codes = front ++ code :: back) : other ∈ front := by
  induction href using Relation.TransGen.head_induction_on generalizing front back with
  | single href => exact h.before _ _ _ hsplit _ href
  | head href _ ih =>
    obtain ⟨first, last, rfl⟩ := List.append_of_mem (h.before _ _ _ hsplit _ href)
    rw [List.append_assoc, List.cons_append] at hsplit
    exact List.mem_append_left _ (ih hsplit)

/-- No block refers to itself, directly or not. -/
theorem acyclic (h : Ordered apertures codes) (code : Nat) :
    ¬ Relation.TransGen (References apertures) code code := by
  intro hcycle
  obtain ⟨other, href, -⟩ := Relation.TransGen.head'_iff.mp hcycle
  obtain ⟨front, back, hsplit, hnew⟩ := List.eq_append_cons_of_mem (h.mem_of_references href)
  exact hnew (h.before_of_transGen hcycle hsplit)

end Ordered

section

variable {table : Apertures α} {a : Aperture α} {codes : List Nat}

theorem Anchored.define {steps : List (Step α)} (h : Anchored table steps) (a : Aperture α) :
    Anchored (table.define a) steps := by
  intro step hmem code hcode
  rw [Apertures.Defines, Apertures.get?_define]
  split
  · exact ⟨a, rfl⟩
  · exact h step hmem code hcode

private theorem block?_of_flashes {step : Step α} {inner : BlockAperture α} {other : Nat}
    (hfresh : ¬ table.Defines a.code) (hdefined : table.Defines other)
    (hflash : Flashes (table.define a) step inner) (hother : step.aperture = some other) :
    table.block? other = some inner := by
  have hne : a.code ≠ other := fun heq => hfresh (heq ▸ hdefined)
  obtain ⟨code, hcode, hblock⟩ := hflash.exists_code
  cases hother.symm.trans hcode
  rwa [Apertures.block?_define_of_ne hne] at hblock

private theorem References.of_define {code other : Nat} (hfresh : ¬ table.Defines a.code)
    (hanchored : ∀ code block, table.block? code = some block → Anchored table block.steps)
    (hne : a.code ≠ code) (h : References (table.define a) code other) :
    References table code other := by
  obtain ⟨block, step, inner, hblock, hmem, hflash, hother⟩ := h
  rw [Apertures.block?_define_of_ne hne] at hblock
  have hinner := block?_of_flashes hfresh (hanchored code block hblock step hmem other hother)
    hflash hother
  exact ⟨block, step, inner, hblock, hmem, ⟨hflash.1, other, hother, hinner⟩, hother⟩

private theorem anchored_define
    (hanchored : ∀ code block, table.block? code = some block → Anchored table block.steps)
    (ha : ∀ block, a.block? = some block → Anchored table block.steps) :
    ∀ code block, (table.define a).block? code = some block →
      Anchored (table.define a) block.steps := by
  intro code block hblock
  rcases Apertures.block?_define hblock with hself | hold
  · exact (ha block hself).define a
  · exact (hanchored code block hold).define a

private theorem foreign_define (hfresh : ¬ table.Defines a.code)
    (hforeign : ∀ code block, table.block? code = some block →
      ∀ step ∈ block.steps, step.aperture ≠ some code)
    (ha : ∀ block, a.block? = some block → Anchored table block.steps) :
    ∀ code block, (table.define a).block? code = some block →
      ∀ step ∈ block.steps, step.aperture ≠ some code := by
  intro code block hblock step hmem hself
  by_cases heq : a.code = code
  · rw [← heq, Apertures.block?_define_self] at hblock
    exact hfresh (ha block hblock step hmem _ (heq ▸ hself))
  · rw [Apertures.block?_define_of_ne heq] at hblock
    exact hforeign code block hblock step hmem hself

private theorem Ordered.define_aside (h : Ordered table codes) (hfresh : ¬ table.Defines a.code)
    (hanchored : ∀ code block, table.block? code = some block → Anchored table block.steps)
    (ha : a.block? = none) : Ordered (table.define a) codes := by
  have hnone : table.block? a.code = none := by
    rw [Option.eq_none_iff_forall_ne_some]
    exact fun block hblock => hfresh (Apertures.defines_of_block? hblock)
  constructor
  · intro code
    rw [h.mem_iff]
    by_cases heq : a.code = code
    · rw [← heq, hnone, Apertures.block?_define_self, ha]
    · rw [Apertures.block?_define_of_ne heq]
  · intro front code back hsplit other href
    refine h.before front code back hsplit other (href.of_define hfresh hanchored ?_)
    rintro rfl
    obtain ⟨block, _, _, hblock, -⟩ := href
    rw [Apertures.block?_define_self, ha] at hblock
    cases hblock

/-- A new block comes last: it refers only to what was there, and nothing refers to it yet. -/
private theorem Ordered.define_block {block : BlockAperture α} (h : Ordered table codes)
    (hfresh : ¬ table.Defines a.code)
    (hanchored : ∀ code block, table.block? code = some block → Anchored table block.steps)
    (ha : a.block? = some block) (hown : Anchored table block.steps) :
    Ordered (table.define a) (codes ++ [a.code]) := by
  constructor
  · intro code
    rw [List.mem_append, List.mem_singleton, h.mem_iff]
    by_cases heq : a.code = code
    · rw [← heq, Apertures.block?_define_self, ha]
      simp
    · rw [Apertures.block?_define_of_ne heq]
      simp [Ne.symm heq]
  · intro front code back hsplit other href
    rcases List.eq_nil_or_concat back with rfl | ⟨rest, last, rfl⟩
    · obtain ⟨rfl, hcode⟩ := List.append_inj' hsplit rfl
      cases hcode
      obtain ⟨own, step, inner, hblock, hmem, hflash, hother⟩ := href
      rw [Apertures.block?_define_self, ha] at hblock
      cases hblock
      have hinner := block?_of_flashes hfresh (hown step hmem other hother) hflash hother
      exact (h.mem_iff other).mpr (Option.isSome_iff_exists.mpr ⟨inner, hinner⟩)
    · rw [List.concat_eq_append, ← List.cons_append, ← List.append_assoc] at hsplit
      obtain ⟨rfl, -⟩ := List.append_inj' hsplit rfl
      refine h.before front code rest rfl other (href.of_define hfresh hanchored ?_)
      rintro rfl
      obtain ⟨own, hown⟩ := Option.isSome_iff_exists.mp ((h.mem_iff a.code).mp (by simp))
      exact hfresh (Apertures.defines_of_block? hown)

end

end Inlining

open Inlining

namespace Definitions

variable {d d' : Definitions α} {token : Token} {tokens before : List Token} {codes : List Nat}

/-- What holds of the definitions taken so far if no code has been defined twice: a code that was
defined is in the table or is that of an open block, and the blocks are in order. -/
structure Orderly (before : List Token) (d : Definitions α) (codes : List Nat) : Prop where
  account : (d.openBlocks.map OpenBlock.code ++ d.apertures.codes).Perm (definedCodes before)
  anchored : ∀ code block, d.apertures.block? code = some block →
    Anchored d.apertures block.steps
  foreign : ∀ code block, d.apertures.block? code = some block →
    ∀ step ∈ block.steps, step.aperture ≠ some code
  ordered : Ordered d.apertures codes

private theorem openCodes_pass (d : Definitions α) (token : Token) :
    (d.pass token).openBlocks.map OpenBlock.code = d.openBlocks.map OpenBlock.code ∧
      (d.pass token).apertures = d.apertures := by
  unfold pass
  split <;> simp_all

namespace Orderly

theorem nil : Orderly [] (empty : Definitions α) [] where
  account := .refl _
  anchored _ _ hblock := nomatch hblock
  foreign _ _ hblock := nomatch hblock
  ordered := by
    constructor
    · intro code
      simp [empty, Apertures.empty, Apertures.block?, Apertures.get?]
    · intro front code back hsplit
      simp at hsplit

theorem aside (h : Orderly before d codes) (hcode : token.definedCode? = none)
    (hcodes : d'.openBlocks.map OpenBlock.code = d.openBlocks.map OpenBlock.code)
    (htable : d'.apertures = d.apertures) : Orderly (before ++ [token]) d' codes := by
  obtain ⟨haccount, hanchored, hforeign, hordered⟩ := h
  constructor
  · rw [definedCodes_concat, hcode, hcodes, htable, Option.toList_none, List.append_nil]
    exact haccount
  · rwa [htable]
  · rwa [htable]
  · rwa [htable]

theorem aperture {a : Aperture α} (h : Orderly before d codes)
    (hcode : token.definedCode? = some a.code) (ha : a.block? = none)
    (hnew : a.code ∉ definedCodes before) :
    Orderly (before ++ [token]) { d with apertures := d.apertures.define a } codes := by
  have hfresh : ¬ d.apertures.Defines a.code := fun hdefines =>
    hnew (h.account.mem_iff.mp (List.mem_append_right _ (Apertures.defines_iff.mp hdefines)))
  have hnone : ∀ block, a.block? = some block → Anchored d.apertures block.steps := by
    intro block hblock
    cases ha.symm.trans hblock
  refine ⟨?_, anchored_define h.anchored hnone, foreign_define hfresh h.foreign hnone,
    h.ordered.define_aside hfresh h.anchored ha⟩
  rw [definedCodes_concat, hcode, Option.toList_some]
  refine ((Apertures.codes_define hfresh).append_left _).trans ?_
  exact List.perm_middle.trans ((h.account.cons _).trans (List.perm_append_singleton _ _).symm)

theorem opening {code line : Nat} (h : Orderly before d codes)
    (hcode : token.definedCode? = some code) :
    Orderly (before ++ [token]) { d with openBlocks := ⟨code, line, []⟩ :: d.openBlocks }
      codes := by
  refine ⟨?_, h.anchored, h.foreign, h.ordered⟩
  rw [definedCodes_concat, hcode, Option.toList_some]
  exact (h.account.cons code).trans (List.perm_append_singleton _ _).symm

theorem closing {frame : OpenBlock} {outer : List OpenBlock} {block : BlockAperture α}
    (h : Orderly before d codes) (hcode : token.definedCode? = none)
    (hopen : d.openBlocks = frame :: outer) (hown : Anchored d.apertures block.steps)
    (hnodup : (definedCodes before).Nodup) :
    Orderly (before ++ [token])
      { d with
        openBlocks := outer
        apertures := d.apertures.define ⟨frame.code, .block block⟩ }
      (codes ++ [frame.code]) := by
  have haccount := h.account
  rw [hopen, List.map_cons, List.cons_append] at haccount
  have hfresh : ¬ d.apertures.Defines frame.code := by
    have hnew := (List.nodup_cons.mp (haccount.nodup_iff.mpr hnodup)).1
    rw [Apertures.defines_iff]
    exact fun hmem => hnew (List.mem_append_right _ hmem)
  have hself : ∀ other, some block = some other → Anchored d.apertures other.steps := by
    rintro other ⟨⟩
    exact hown
  refine ⟨?_, anchored_define h.anchored hself, foreign_define hfresh h.foreign hself,
    h.ordered.define_block hfresh h.anchored rfl hown⟩
  rw [definedCodes_concat, hcode, Option.toList_none, List.append_nil]
  refine ((Apertures.codes_define hfresh).append_left _).trans ?_
  exact List.perm_middle.trans haccount

variable [Scalar α] {format : Format} {tolerance : α} {s t : Session α}

theorem follow (h : Orderly before d codes) (htaken : Taken format tolerance d token s d' t)
    (hnodup : (definedCodes (before ++ [token])).Nodup) :
    Orderly (before ++ [token]) d' (codes ++ d.closed token) := by
  rw [definedCodes_concat] at hnodup
  cases htaken with
  | command hcommand =>
    obtain ⟨hcodes, htable⟩ := openCodes_pass d token
    rw [closed_of_command hcommand, List.append_nil]
    refine h.aside ?_ hcodes htable
    simp [Token.definedCode?, Token.isDefinition_eq_false_iff.mp hcommand]
  | header hkind =>
    rw [closed_of_kind hkind (by decide), List.append_nil]
    exact h.aside (by simp [Token.definedCode?, hkind]) rfl rfl
  | apertureMacro hkind _ =>
    rw [closed_of_kind hkind (by decide), List.append_nil]
    exact h.aside (by simp [Token.definedCode?, hkind]) rfl rfl
  | @aperture a _ hkind ha hbooks =>
    have hcode : token.definedCode? = some a.code := by
      simp [Token.definedCode?, hkind, Aperture.codeOf?_of_ofCommand ha]
    rw [hcode, Option.toList_some] at hnodup
    rw [closed_of_kind hkind (by decide), List.append_nil]
    refine h.aperture hcode (Aperture.block?_of_ofCommand ha) fun hmem => ?_
    exact (List.nodup_append.mp hnodup).2.2 _ hmem _ (List.mem_singleton_self _) rfl
  | @opening code hopening =>
    rw [closed_of_opening hopening, List.append_nil]
    exact h.opening (by simp [Token.definedCode?, kind_of_directive? hopening, hopening])
  | closing hclosing hopen hcompile hbooks =>
    rw [closed_of_closing hclosing hopen]
    refine h.closing ?_ hopen ?_ (List.nodup_append.mp hnodup).1
    · simp [Token.definedCode?, kind_of_directive? hclosing, hclosing]
    · exact fun step hmem => ((Stream.refers_of_compile hcompile).2 step hmem).aperture

end Orderly

variable [Scalar α] {format : Format} {tolerance : α} {s t : Session α}

private theorem orderly_of_takeAll (h : (takeAll format tolerance empty tokens).Yields s d t)
    (hnodup : (definedCodes tokens).Nodup) :
    ∃ blocks, Unfinished tokens d.openBlocks d.stream.reverse blocks ∧
      Orderly tokens d (blocks.map ClosedBlock.code) := by
  refine takeAll_induction (I := fun before d _ => (definedCodes before).Nodup →
    ∃ blocks, Unfinished before d.openBlocks d.stream.reverse blocks ∧
      Orderly before d (blocks.map ClosedBlock.code)) ?_ h ?_ hnodup
  · intro before token d s d' t htaken hbefore hnodup
    have hfront : (definedCodes before).Nodup := by
      rw [definedCodes_concat] at hnodup
      exact (List.nodup_append.mp hnodup).1
    obtain ⟨blocks, hread, horderly⟩ := hbefore hfront
    obtain ⟨more, hmore, hread'⟩ := htaken.unfinished hread
    refine ⟨blocks ++ more, hread', ?_⟩
    rw [List.map_append, hmore]
    exact horderly.follow htaken hnodup
  · exact fun _ => ⟨[], .outside .nil, .nil⟩

/-- Where no code is defined twice, blocks refer only to blocks that are closed before them, and no
step of a block has the code of the block itself. -/
theorem ordered_of_ofTokens (h : (ofTokens format tolerance tokens).Yields s d t)
    (hnodup : (definedCodes tokens).Nodup) :
    ∃ blocks, Bracketed tokens d.stream.reverse blocks ∧
      Ordered d.apertures (blocks.map ClosedBlock.code) ∧
      ∀ code block, d.apertures.block? code = some block →
        ∀ step ∈ block.steps, step.aperture ≠ some code := by
  obtain ⟨hall, hopen⟩ := yields_ofTokens_iff.mp h
  obtain ⟨blocks, hread, horderly⟩ := orderly_of_takeAll hall hnodup
  rw [hopen] at hread
  cases hread with
  | outside hbracketed => exact ⟨blocks, hbracketed, horderly.ordered, horderly.foreign⟩

end Definitions

end Gerber
