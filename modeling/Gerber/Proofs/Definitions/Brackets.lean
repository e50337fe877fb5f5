import Gerber.Definitions
import Mathlib.Data.List.Basic
import Mathlib.Data.List.Induction
import Mathlib.Data.List.Infix

/-!
# Brackets of blocks

The commands that open and close aperture blocks are the brackets of a file.  Where they match, each
command belongs to the innermost block around it or to no block.  They match if and only if no start
of the file closes more blocks than it opens, and the file as a whole closes just as many.
-/

namespace Gerber

namespace Token

/-- What definitions start with. -/
def definitionLeads : List Text :=
  ["%FS".toList, "%MO".toList, "%AM".toList, "%AD".toList, "%AB".toList]

def isDefinition (token : Token) : Bool :=
  definitionLeads.any fun lead => token.text.startsWith lead

def isBlockCommand (token : Token) : Bool := token.text.startsWith "%AB".toList

/-- What a command opens or closes. -/
def directive? (token : Token) : Option BlockDirective :=
  (BlockDirective.ofCommand token.text).toOption

def opens (token : Token) : Bool :=
  match token.directive? with
  | some (.opening _) => true
  | _ => false

def closes (token : Token) : Bool := token.directive? = some .closing

theorem isDefinition_eq_false_iff {token : Token} :
    token.isDefinition = false ↔ DefinitionKind.ofText? token.text = none := by
  unfold DefinitionKind.ofText? isDefinition definitionLeads
  simp only [List.any_cons, List.any_nil, Bool.or_false, Bool.or_eq_false_iff]
  constructor
  · rintro ⟨hfs, hmo, ham, had, hab⟩
    simp only [hfs, hmo, ham, had, hab, Bool.or_false, Bool.false_eq_true, if_false]
  · intro h
    repeat (split at h; cases h)
    simp_all only [Bool.or_eq_true, not_or, Bool.not_eq_true, and_self]

theorem isBlockCommand_iff {token : Token} :
    token.isBlockCommand ↔ DefinitionKind.ofText? token.text = some .block := by
  constructor
  · intro h
    obtain ⟨rest, hrest⟩ := List.isPrefixOf_iff_prefix.mp h
    simp [← hrest, DefinitionKind.ofText?, Text.startsWith]
  · intro h
    unfold DefinitionKind.ofText? at h
    iterate 3 (split at h; cases h)
    split at h
    · assumption
    · cases h

theorem isDefinition_of_kind {token : Token} {kind : DefinitionKind}
    (h : DefinitionKind.ofText? token.text = some kind) : token.isDefinition := by
  by_contra hnot
  have hnone := isDefinition_eq_false_iff.mp (Bool.eq_false_iff.mpr hnot)
  rw [h] at hnone
  cases hnone

theorem not_block_of_kind {token : Token} {kind : DefinitionKind}
    (h : DefinitionKind.ofText? token.text = some kind) (hne : kind ≠ .block) :
    token.isBlockCommand = false := by
  rw [Bool.eq_false_iff]
  intro hblock
  exact hne (Option.some.inj (h.symm.trans (isBlockCommand_iff.mp hblock)))

theorem isDefinition_of_isBlockCommand {token : Token} (h : token.isBlockCommand) :
    token.isDefinition :=
  isDefinition_of_kind (isBlockCommand_iff.mp h)

theorem directive?_eq_some_iff {token : Token} {directive : BlockDirective} :
    token.directive? = some directive ↔ BlockDirective.ofCommand token.text = .ok directive := by
  unfold directive?
  cases BlockDirective.ofCommand token.text <;> simp [Except.toOption]

/-- Only a block command opens or closes a block. -/
theorem isBlockCommand_of_directive? {token : Token} {directive : BlockDirective}
    (h : token.directive? = some directive) : token.isBlockCommand := by
  rw [directive?_eq_some_iff, BlockDirective.ofCommand] at h
  split at h
  · cases h
  all_goals
    have hbody := ‹_ = some _›
    obtain ⟨rest, hrest, -⟩ := Option.bind_eq_some_iff.mp hbody
    obtain ⟨tail, htail⟩ : "%AB".toList <+: token.text := by
      rw [Text.after?, List.isPrefixOf?_eq_some_iff_append_eq] at hrest
      exact ⟨rest, hrest⟩
    exact List.isPrefixOf_iff_prefix.mpr ⟨tail, htail⟩

theorem closes_iff {token : Token} : token.closes ↔ token.directive? = some .closing := by
  simp [closes]

end Token

namespace Definitions

def openings (tokens : List Token) : Nat := tokens.countP Token.opens

def closings (tokens : List Token) : Nat := tokens.countP Token.closes

/-- Where `depth` blocks are open, no start of the commands closes more blocks than are open. -/
def Nested (depth : Nat) (tokens : List Token) : Prop :=
  ∀ front, front <+: tokens → closings front ≤ depth + openings front

/-- Each block that is closed has been opened before, and each block that is opened is closed. -/
def Balanced (tokens : List Token) : Prop :=
  Nested 0 tokens ∧ openings tokens = closings tokens

instance (depth : Nat) (tokens : List Token) : Decidable (Nested depth tokens) :=
  decidable_of_iff (∀ front ∈ tokens.inits, closings front ≤ depth + openings front)
    (by simp [Nested, List.mem_inits])

instance (tokens : List Token) : Decidable (Balanced tokens) :=
  inferInstanceAs (Decidable (_ ∧ _))

/-- A block that has been closed: its code, the line it was opened on, and its commands. -/
structure ClosedBlock where
  code : Nat
  startLine : Nat
  body : List Token

/-- Commands with matching brackets.  The second list are those outside of all blocks, and the third
are the blocks in the order in which they are closed, each with the commands that stand in it and in
no block inside it.  Definitions belong to neither. -/
inductive Bracketed : List Token → List Token → List ClosedBlock → Prop
  | nil : Bracketed [] [] []
  | command {token : Token} {rest commands : List Token} {blocks : List ClosedBlock} :
      token.isDefinition = false → Bracketed rest commands blocks →
        Bracketed (token :: rest) (token :: commands) blocks
  | definition {token : Token} {rest commands : List Token} {blocks : List ClosedBlock} :
      token.isDefinition → token.isBlockCommand = false → Bracketed rest commands blocks →
        Bracketed (token :: rest) commands blocks
  | block {opening closing : Token} {code : Nat} {inner body rest commands : List Token}
      {within blocks : List ClosedBlock} :
      opening.directive? = some (.opening code) → closing.directive? = some .closing →
      Bracketed inner body within → Bracketed rest commands blocks →
        Bracketed (opening :: (inner ++ closing :: rest)) commands
          (within ++ ⟨code, opening.line, body⟩ :: blocks)

/-- Commands that end inside of the blocks `frames`, of which the innermost comes first. -/
inductive Unfinished : List Token → List OpenBlock → List Token → List ClosedBlock → Prop
  | outside {tokens commands : List Token} {blocks : List ClosedBlock} :
      Bracketed tokens commands blocks → Unfinished tokens [] commands blocks
  | inside {before inner body commands : List Token} {opening : Token} {code : Nat}
      {frames : List OpenBlock} {blocks within : List ClosedBlock} :
      Unfinished before frames commands blocks → opening.directive? = some (.opening code) →
      Bracketed inner body within →
        Unfinished (before ++ opening :: inner) (⟨code, opening.line, body.reverse⟩ :: frames)
          commands (blocks ++ within)

section

variable {depth code : Nat} {token opening closing : Token} {tokens rest : List Token}

theorem openings_append : openings (tokens ++ rest) = openings tokens + openings rest :=
  List.countP_append

theorem closings_append : closings (tokens ++ rest) = closings tokens + closings rest :=
  List.countP_append

private theorem openings_cons :
    openings (token :: rest) = openings rest + if token.opens then 1 else 0 :=
  List.countP_cons

private theorem closings_cons :
    closings (token :: rest) = closings rest + if token.closes then 1 else 0 :=
  List.countP_cons

theorem opens_of_opening (h : token.directive? = some (.opening code)) :
    token.opens = true ∧ token.closes = false := by
  simp [Token.opens, Token.closes, h]

theorem closes_of_closing (h : token.directive? = some .closing) :
    token.opens = false ∧ token.closes = true := by
  simp [Token.opens, Token.closes, h]

theorem directive?_of_not_block (h : token.isBlockCommand = false) : token.directive? = none := by
  cases hdirective : token.directive? with
  | none => rfl
  | some directive =>
    rw [Token.isBlockCommand_of_directive? hdirective] at h
    cases h

/-- What is no bracket counts for nothing. -/
theorem not_bracket_of_not_block (h : token.isBlockCommand = false) :
    token.opens = false ∧ token.closes = false := by
  simp [Token.opens, Token.closes, directive?_of_not_block h]

theorem isBlockCommand_of_not_definition (h : token.isDefinition = false) :
    token.isBlockCommand = false := by
  rw [Bool.eq_false_iff] at h ⊢
  exact fun hblock => h (Token.isDefinition_of_isBlockCommand hblock)

private theorem nested_nil : Nested depth [] := by
  intro front hfront
  rw [List.prefix_nil.mp hfront]
  exact Nat.zero_le _

private theorem nested_cons_iff : Nested depth (token :: rest) ↔
    ∀ front, front <+: rest → closings (token :: front) ≤ depth + openings (token :: front) := by
  constructor
  · intro h front hfront
    exact h (token :: front) (List.cons_prefix_cons.mpr ⟨rfl, hfront⟩)
  · intro h front hfront
    cases front with
    | nil => exact Nat.zero_le _
    | cons first front =>
      obtain ⟨rfl, hrest⟩ := List.cons_prefix_cons.mp hfront
      exact h front hrest

private theorem nested_opening_iff (h : opening.directive? = some (.opening code)) :
    Nested depth (opening :: rest) ↔ Nested (depth + 1) rest := by
  obtain ⟨hopens, hcloses⟩ := opens_of_opening h
  rw [nested_cons_iff]
  refine forall₂_congr fun front _ => ?_
  simp only [closings_cons, openings_cons, hopens, hcloses]
  simp
  omega

private theorem nested_closing_iff (h : closing.directive? = some .closing) :
    Nested (depth + 1) (closing :: rest) ↔ Nested depth rest := by
  obtain ⟨hopens, hcloses⟩ := closes_of_closing h
  rw [nested_cons_iff]
  refine forall₂_congr fun front _ => ?_
  simp only [closings_cons, openings_cons, hopens, hcloses]
  simp
  omega

private theorem nested_other_iff (h : token.isBlockCommand = false) :
    Nested depth (token :: rest) ↔ Nested depth rest := by
  obtain ⟨hopens, hcloses⟩ := not_bracket_of_not_block h
  rw [nested_cons_iff]
  refine forall₂_congr fun front _ => ?_
  simp only [closings_cons, openings_cons, hopens, hcloses]
  simp

private theorem Nested.of_prefix {front : List Token} (h : Nested depth tokens)
    (hfront : front <+: tokens) :
    Nested depth front :=
  fun shorter hshorter => h shorter (hshorter.trans hfront)

end

namespace Bracketed

variable {tokens rest commands more : List Token} {blocks others : List ClosedBlock}

theorem append (h : Bracketed tokens commands blocks) (h' : Bracketed rest more others) :
    Bracketed (tokens ++ rest) (commands ++ more) (blocks ++ others) := by
  induction h with
  | nil => exact h'
  | command hcommand _ ih => exact .command hcommand ih
  | definition hdefinition hblock _ ih => exact .definition hdefinition hblock ih
  | block hopening hclosing hinner _ _ ih =>
    have hall := Bracketed.block hopening hclosing hinner ih
    simpa only [List.cons_append, List.append_assoc] using hall

private theorem nested_append {depth : Nat} (h : Bracketed tokens commands blocks)
    (hrest : Nested depth rest) : Nested depth (tokens ++ rest) := by
  induction h generalizing depth rest with
  | nil => exact hrest
  | command hcommand _ ih =>
    exact (nested_other_iff (isBlockCommand_of_not_definition hcommand)).mpr (ih hrest)
  | definition _ hblock _ ih => exact (nested_other_iff hblock).mpr (ih hrest)
  | block hopening hclosing _ _ ihinner ihrest =>
    rw [List.cons_append, nested_opening_iff hopening, List.append_assoc, List.cons_append]
    exact ihinner ((nested_closing_iff hclosing).mpr (ihrest hrest))

theorem openings_eq_closings (h : Bracketed tokens commands blocks) :
    openings tokens = closings tokens := by
  induction h with
  | nil => rfl
  | command hcommand _ ih =>
    obtain ⟨hopens, hcloses⟩ := not_bracket_of_not_block (isBlockCommand_of_not_definition hcommand)
    simp [openings_cons, closings_cons, hopens, hcloses, ih]
  | definition _ hblock _ ih =>
    obtain ⟨hopens, hcloses⟩ := not_bracket_of_not_block hblock
    simp [openings_cons, closings_cons, hopens, hcloses, ih]
  | block hopening hclosing _ _ ihinner ihrest =>
    obtain ⟨hopens, hcloses⟩ := opens_of_opening hopening
    obtain ⟨hopens', hcloses'⟩ := closes_of_closing hclosing
    simp only [openings_cons, closings_cons, openings_append, closings_append, hopens, hcloses,
      hopens', hcloses', ihinner, ihrest]
    simp
    omega

theorem length_blocks (h : Bracketed tokens commands blocks) : blocks.length = openings tokens := by
  induction h with
  | nil => rfl
  | command hcommand _ ih =>
    obtain ⟨hopens, -⟩ := not_bracket_of_not_block (isBlockCommand_of_not_definition hcommand)
    simp [openings_cons, hopens, ih]
  | definition _ hblock _ ih =>
    obtain ⟨hopens, -⟩ := not_bracket_of_not_block hblock
    simp [openings_cons, hopens, ih]
  | block hopening hclosing _ _ ihinner ihrest =>
    obtain ⟨hopens, -⟩ := opens_of_opening hopening
    obtain ⟨hopens', -⟩ := closes_of_closing hclosing
    simp only [openings_cons, openings_append, hopens, hopens', List.length_append,
      List.length_cons, ihinner, ihrest]
    simp
    omega

theorem balanced (h : Bracketed tokens commands blocks) : Balanced tokens := by
  have hnested : Nested 0 (tokens ++ []) := h.nested_append nested_nil
  rw [List.append_nil] at hnested
  exact ⟨hnested, h.openings_eq_closings⟩

/-- Every command that is no definition belongs to one list, once. -/
theorem perm (h : Bracketed tokens commands blocks) :
    (commands ++ blocks.flatMap ClosedBlock.body).Perm
      (tokens.filter fun token => !token.isDefinition) := by
  induction h with
  | nil => exact .nil
  | command hcommand _ ih =>
    rw [List.filter_cons_of_pos (by simp [hcommand])]
    exact ih.cons _
  | definition hdefinition _ _ ih =>
    rw [List.filter_cons_of_neg (by simp [hdefinition])]
    exact ih
  | @block opening closing code inner body rest commands within blocks hopening hclosing _ _ ihinner
      ihrest =>
    have hbracket {token : Token} {directive : BlockDirective}
        (hdirective : token.directive? = some directive) : token.isDefinition = true :=
      Token.isDefinition_of_isBlockCommand (Token.isBlockCommand_of_directive? hdirective)
    rw [List.filter_cons_of_neg (by simp [hbracket hopening]), List.filter_append,
      List.filter_cons_of_neg (by simp [hbracket hclosing])]
    refine .trans ?_ (ihinner.append ihrest)
    simp only [List.flatMap_append, List.flatMap_cons]
    -- the commands inside, those of the block and those after it change places
    refine List.perm_iff_count.mpr fun token => ?_
    simp only [List.count_append]
    omega

/-- Each block stands between the commands that open and close it. -/
theorem exists_split {block : ClosedBlock} (h : Bracketed tokens commands blocks)
    (hblock : block ∈ blocks) :
    ∃ before opening inner within closing after,
      tokens = before ++ opening :: (inner ++ closing :: after) ∧
        opening.directive? = some (.opening block.code) ∧ opening.line = block.startLine ∧
        closing.directive? = some .closing ∧ Bracketed inner block.body within := by
  induction h with
  | nil => cases hblock
  | @command token _ _ _ _ _ ih =>
    obtain ⟨before, opening, inner, within, closing, after, rfl, hpair⟩ := ih hblock
    exact ⟨token :: before, opening, inner, within, closing, after, rfl, hpair⟩
  | @definition token _ _ _ _ _ _ ih =>
    obtain ⟨before, opening, inner, within, closing, after, rfl, hpair⟩ := ih hblock
    exact ⟨token :: before, opening, inner, within, closing, after, rfl, hpair⟩
  | @block first last code outer body rest _ _ _ hopening hclosing hinner _ ihinner ihrest =>
    rcases List.mem_append.mp hblock with hwithin | hblock
    · obtain ⟨before, opening, inner, within, closing, after, rfl, hpair⟩ := ihinner hwithin
      exact ⟨first :: before, opening, inner, within, closing, after ++ last :: rest, by simp,
        hpair⟩
    · rcases List.mem_cons.mp hblock with rfl | hblock
      · exact ⟨[], first, outer, _, last, rest, rfl, hopening, rfl, hclosing, hinner⟩
      · obtain ⟨before, opening, inner, within, closing, after, rfl, hpair⟩ := ihrest hblock
        exact ⟨first :: (outer ++ last :: before), opening, inner, within, closing, after, by simp,
          hpair⟩

end Bracketed

namespace Unfinished

variable {tokens rest commands more : List Token} {blocks others : List ClosedBlock}
  {frame : OpenBlock} {outer frames : List OpenBlock}

theorem append_outside (h : Unfinished tokens [] commands blocks)
    (h' : Bracketed rest more others) :
    Unfinished (tokens ++ rest) [] (commands ++ more) (blocks ++ others) := by
  cases h with
  | outside hall => exact .outside (hall.append h')

/-- Matching brackets belong to the innermost open block. -/
theorem append_inside (h : Unfinished tokens (frame :: outer) commands blocks)
    (h' : Bracketed rest more others) :
    Unfinished (tokens ++ rest) ({ frame with body := more.reverse ++ frame.body } :: outer)
      commands (blocks ++ others) := by
  cases h with
  | inside hbefore hopening hinner =>
    have hall := Unfinished.inside hbefore hopening (hinner.append h')
    simpa only [List.append_assoc, List.cons_append, List.reverse_append] using hall

theorem aside {token : Token} (h : Unfinished tokens frames commands blocks)
    (hdefinition : token.isDefinition) (hblock : token.isBlockCommand = false) :
    Unfinished (tokens ++ [token]) frames commands blocks := by
  have hone : Bracketed [token] [] [] := .definition hdefinition hblock .nil
  cases frames with
  | nil =>
    have hall := h.append_outside hone
    rwa [List.append_nil, List.append_nil] at hall
  | cons frame outer =>
    have hall := h.append_inside hone
    rwa [List.append_nil] at hall

theorem opening {token : Token} {code : Nat} (h : Unfinished tokens frames commands blocks)
    (hopening : token.directive? = some (.opening code)) :
    Unfinished (tokens ++ [token]) (⟨code, token.line, []⟩ :: frames) commands blocks := by
  have hall := Unfinished.inside h hopening .nil
  simpa only [List.reverse_nil, List.append_nil] using hall

/-- Closing the innermost open block leaves the commands around it as they were. -/
theorem closing {token : Token} (h : Unfinished tokens (frame :: outer) commands blocks)
    (hclosing : token.directive? = some .closing) :
    Unfinished (tokens ++ [token]) outer commands
      (blocks ++ [⟨frame.code, frame.startLine, frame.body.reverse⟩]) := by
  cases h with
  | @inside before inner body _ opening code _ blocks within hbefore hopening hinner =>
    have hblock := Bracketed.block hopening hclosing hinner .nil
    cases outer with
    | nil =>
      have hall := hbefore.append_outside hblock
      simpa only [List.append_assoc, List.cons_append, List.append_nil, List.reverse_reverse]
        using hall
    | cons frame outer =>
      have hall := hbefore.append_inside hblock
      simpa only [List.append_assoc, List.cons_append, List.reverse_nil, List.nil_append,
        List.reverse_reverse] using hall

/-- The open blocks are those that have been opened and not closed. -/
theorem openings_eq (h : Unfinished tokens frames commands blocks) :
    openings tokens = closings tokens + frames.length := by
  induction h with
  | outside hall => exact hall.openings_eq_closings
  | inside _ hopening hinner ih =>
    obtain ⟨hopens, hcloses⟩ := opens_of_opening hopening
    have heq := hinner.openings_eq_closings
    simp only [openings_append, closings_append, openings_cons, closings_cons, hopens, hcloses,
      List.length_cons]
    simp
    omega

private theorem nested_append {depth : Nat} (h : Unfinished tokens frames commands blocks)
    (hrest : Nested (depth + frames.length) rest) : Nested depth (tokens ++ rest) := by
  induction h generalizing depth rest with
  | outside hall => exact hall.nested_append hrest
  | inside _ hopening hinner ih =>
    rw [List.append_assoc, List.cons_append]
    exact ih ((nested_opening_iff hopening).mpr (hinner.nested_append hrest))

theorem nested (h : Unfinished tokens frames commands blocks) : Nested 0 tokens := by
  have hall : Nested 0 (tokens ++ []) := h.nested_append nested_nil
  rwa [List.append_nil] at hall

end Unfinished

private theorem exists_unfinished {tokens : List Token} (h : Nested 0 tokens)
    (hvalid : ∀ token ∈ tokens, token.isBlockCommand → token.directive?.isSome) :
    ∃ frames commands blocks, Unfinished tokens frames commands blocks := by
  induction tokens using List.reverseRecOn with
  | nil => exact ⟨[], [], [], .outside .nil⟩
  | append_singleton tokens token ih =>
    obtain ⟨hbefore, htoken⟩ := List.forall_mem_append.mp hvalid
    obtain ⟨frames, commands, blocks, hread⟩ :=
      ih (h.of_prefix (List.prefix_append _ _)) hbefore
    cases hblock : token.isBlockCommand with
    | false =>
      cases hdefinition : token.isDefinition with
      | true => exact ⟨_, _, _, hread.aside hdefinition hblock⟩
      | false =>
        have hone : Bracketed [token] [token] [] := .command hdefinition .nil
        cases frames with
        | nil => exact ⟨_, _, _, hread.append_outside hone⟩
        | cons frame outer => exact ⟨_, _, _, hread.append_inside hone⟩
    | true =>
      obtain ⟨directive, hdirective⟩ :=
        Option.isSome_iff_exists.mp (htoken token (List.mem_singleton_self _) hblock)
      cases directive with
      | opening code => exact ⟨_, _, _, hread.opening hdirective⟩
      | closing =>
        cases frames with
        | nil =>
          -- nothing is open that the command could close
          obtain ⟨hopens, hcloses⟩ := closes_of_closing hdirective
          have hcount := hread.openings_eq
          have hall := h (tokens ++ [token]) List.prefix_rfl
          simp only [openings_append, closings_append, openings_cons, closings_cons, hopens,
            hcloses, List.length_nil] at hall hcount
          simp [openings, closings] at hall hcount
          omega
        | cons frame outer => exact ⟨_, _, _, hread.closing hdirective⟩

/-- What is balanced, and has no block command that neither opens nor closes, is bracketed. -/
theorem exists_bracketed {tokens : List Token} (h : Balanced tokens)
    (hvalid : ∀ token ∈ tokens, token.isBlockCommand → token.directive?.isSome) :
    ∃ commands blocks, Bracketed tokens commands blocks := by
  obtain ⟨frames, commands, blocks, hread⟩ := exists_unfinished h.1 hvalid
  have hcount := hread.openings_eq
  have hframes : frames = [] := by
    rw [h.2] at hcount
    exact List.length_eq_zero_iff.mp (by omega)
  subst hframes
  cases hread with
  | outside hall => exact ⟨commands, blocks, hall⟩

end Definitions

end Gerber
