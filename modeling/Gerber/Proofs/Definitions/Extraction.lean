import Gerber.Proofs.Definitions
import Gerber.Scalar.Float

/-!
# Taking definitions is bracket matching

Commands are handed on to the innermost open block while the definitions are taken.  What a block
and the main stream have received in the end is what the brackets of the file say.
-/

namespace Gerber.Definitions

variable {α : Type}

section

variable {d : Definitions α} {frame : OpenBlock} {outer : List OpenBlock}

private theorem pass_of_outside (h : d.openBlocks = []) (token : Token) :
    d.pass token = { d with stream := token :: d.stream } := by
  simp [pass, h]

private theorem pass_of_inside (h : d.openBlocks = frame :: outer) (token : Token) :
    d.pass token =
      { d with openBlocks := { frame with body := token :: frame.body } :: outer } := by
  simp [pass, h]

end

variable [Scalar α]

variable {format : Format} {tolerance : α} {d d' : Definitions α} {token : Token}
  {tokens rest before : List Token} {s t u : Session α} {e : Error}

theorem yields_takeAll_cons :
    (takeAll format tolerance d (token :: rest)).Yields s d' t ↔
      ∃ mid u, (d.take format tolerance token).Yields s mid u ∧
        (takeAll format tolerance mid rest).Yields u d' t := by
  simp only [takeAll, Run.yields_bind, Run.yields_located]

private theorem yields_takeAll_append :
    (takeAll format tolerance d (tokens ++ rest)).Yields s d' t ↔
      ∃ mid u, (takeAll format tolerance d tokens).Yields s mid u ∧
        (takeAll format tolerance mid rest).Yields u d' t := by
  induction tokens generalizing d s with
  | nil => simp [takeAll]
  | cons token tokens ih =>
    simp only [List.cons_append, yields_takeAll_cons, ih]
    constructor
    · rintro ⟨mid, u, htake, mid', u', htokens, hrest⟩
      exact ⟨mid', u', ⟨mid, u, htake, htokens⟩, hrest⟩
    · rintro ⟨mid', u', ⟨mid, u, htake, htokens⟩, hrest⟩
      exact ⟨mid, u, htake, mid', u', htokens, hrest⟩

private theorem yields_takeAll_singleton :
    (takeAll format tolerance d [token]).Yields s d' t ↔
      (d.take format tolerance token).Yields s d' t := by
  simp [takeAll]

private theorem fails_takeAll_cons :
    (takeAll format tolerance d (token :: rest)).Fails s e t ↔
      (∃ e', (d.take format tolerance token).Fails s e' t ∧ e = e'.locate token.line token.text) ∨
        ∃ mid u, (d.take format tolerance token).Yields s mid u ∧
          (takeAll format tolerance mid rest).Fails u e t := by
  simp only [takeAll, Run.fails_bind, Run.fails_located, Run.yields_located]

theorem fails_takeAll_append :
    (takeAll format tolerance d (tokens ++ rest)).Fails s e t ↔
      (takeAll format tolerance d tokens).Fails s e t ∨
        ∃ mid u, (takeAll format tolerance d tokens).Yields s mid u ∧
          (takeAll format tolerance mid rest).Fails u e t := by
  induction tokens generalizing d s with
  | nil => simp [takeAll]
  | cons token tokens ih =>
    simp only [List.cons_append, fails_takeAll_cons, yields_takeAll_cons, ih]
    constructor
    · rintro (hfirst | ⟨mid, u, htake, htokens | ⟨mid', u', htokens, hrest⟩⟩)
      · exact .inl (.inl hfirst)
      · exact .inl (.inr ⟨mid, u, htake, htokens⟩)
      · exact .inr ⟨mid', u', ⟨mid, u, htake, htokens⟩, hrest⟩
    · rintro ((hfirst | ⟨mid, u, htake, htokens⟩) | ⟨mid', u', ⟨mid, u, htake, htokens⟩, hrest⟩)
      · exact .inl hfirst
      · exact .inr ⟨mid, u, htake, .inl htokens⟩
      · exact .inr ⟨mid, u, htake, .inr ⟨mid', u', htokens, hrest⟩⟩

/-- What holds before the first command, and of the commands taken so far if it held before the last
of them, holds of all. -/
theorem takeAll_induction {I : List Token → Definitions α → Session α → Prop}
    (hkeep : ∀ before token d s d' t, Taken format tolerance d token s d' t → I before d s →
      I (before ++ [token]) d' t)
    (h : (takeAll format tolerance d tokens).Yields s d' t) (hstart : I [] d s) :
    I tokens d' t := by
  have hall (before : List Token) (hbefore : I before d s) : I (before ++ tokens) d' t := by
    clear hstart
    induction tokens generalizing before d s with
    | nil =>
      obtain ⟨rfl, rfl⟩ := Run.yields_pure.mp h
      rwa [List.append_nil]
    | cons token tokens ih =>
      obtain ⟨mid, u, htake, hrest⟩ := yields_takeAll_cons.mp h
      rw [List.append_cons]
      exact ih hrest _ (hkeep _ _ _ _ _ _ (taken_of_take htake) hbefore)
  exact hall [] hstart

theorem kind_of_directive? {directive : BlockDirective} (h : token.directive? = some directive) :
    DefinitionKind.ofText? token.text = some .block :=
  Token.isBlockCommand_iff.mp (Token.isBlockCommand_of_directive? h)

private theorem Taken.of_command (h : Taken format tolerance d token s d' t)
    (hcommand : token.isDefinition = false) : d' = d.pass token := by
  have hkind := Token.isDefinition_eq_false_iff.mp hcommand
  have hnone := directive?_of_not_block (isBlockCommand_of_not_definition hcommand)
  cases h with
  | command _ => rfl
  | _ => simp_all

private theorem Taken.of_opening {code : Nat} (h : Taken format tolerance d token s d' t)
    (hopening : token.directive? = some (.opening code)) :
    d' = { d with openBlocks := ⟨code, token.line, []⟩ :: d.openBlocks } := by
  have hkind := kind_of_directive? hopening
  cases h with
  | command hcommand => simp [Token.isDefinition_eq_false_iff, hkind] at hcommand
  | _ => simp_all

private theorem Taken.of_closing (h : Taken format tolerance d token s d' t)
    (hclosing : token.directive? = some .closing) :
    ∃ frame outer steps, d.openBlocks = frame :: outer ∧
      d' = { d with
        openBlocks := outer
        apertures := d.apertures.define
          ⟨frame.code, .block ⟨frame.startLine, frame.body.reverse, steps⟩⟩ } := by
  have hkind := kind_of_directive? hclosing
  cases h with
  | command hcommand => simp [Token.isDefinition_eq_false_iff, hkind] at hcommand
  | closing _ hframes _ _ => exact ⟨_, _, _, hframes, rfl⟩
  | _ => simp_all

/-- The same commands have been handed to the open blocks and to the main stream. -/
def SameStreams (d d' : Definitions α) : Prop :=
  d'.openBlocks = d.openBlocks ∧ d'.stream = d.stream

private theorem Taken.sameStreams (h : Taken format tolerance d token s d' t)
    (hdefinition : token.isDefinition) (hblock : token.isBlockCommand = false) :
    d.SameStreams d' := by
  have hnone := directive?_of_not_block hblock
  unfold SameStreams
  cases h with
  | _ => simp_all

def receive (d : Definitions α) (commands : List Token) : Definitions α := commands.foldl pass d

section

omit [Scalar α]

variable {commands : List Token}

private theorem receive_of_outside (h : d.openBlocks = []) (commands : List Token) :
    d.receive commands = { d with stream := commands.reverse ++ d.stream } := by
  induction commands generalizing d with
  | nil => rfl
  | cons token commands ih =>
    change (d.pass token).receive commands = _
    have hpass : (d.pass token).openBlocks = [] := by rw [pass_of_outside h, h]
    rw [ih hpass, pass_of_outside h]
    simp

private theorem receive_of_inside {frame : OpenBlock} {outer : List OpenBlock}
    (h : d.openBlocks = frame :: outer) (commands : List Token) :
    d.receive commands =
      { d with
        openBlocks := { frame with body := commands.reverse ++ frame.body } :: outer } := by
  induction commands generalizing d frame with
  | nil => cases d; simp_all [receive]
  | cons token commands ih =>
    change (d.pass token).receive commands = _
    rw [pass_of_inside h, ih rfl]
    simp

private theorem SameStreams.receive (h : d.SameStreams d') (commands : List Token) :
    (d.receive commands).SameStreams (d'.receive commands) := by
  obtain ⟨hframes, hstream⟩ := h
  unfold SameStreams
  cases hopen : d.openBlocks with
  | nil => simp [receive_of_outside hopen, receive_of_outside (hframes.trans hopen), hstream, hopen,
      hframes]
  | cons frame outer =>
    simp [receive_of_inside hopen, receive_of_inside (hframes.trans hopen), hstream]

end

/-- Commands with matching brackets hand to the blocks that are open before them what stands outside
of their own blocks. -/
private theorem sameStreams_of_bracketed {commands : List Token} {blocks : List ClosedBlock}
    (hbracketed : Bracketed tokens commands blocks)
    (h : (takeAll format tolerance d tokens).Yields s d' t) :
    (d.receive commands).SameStreams d' := by
  induction hbracketed generalizing d d' s t with
  | nil =>
    obtain ⟨rfl, rfl⟩ := Run.yields_pure.mp h
    exact ⟨rfl, rfl⟩
  | command hcommand _ ih =>
    obtain ⟨mid, u, htake, hrest⟩ := yields_takeAll_cons.mp h
    obtain rfl := (taken_of_take htake).of_command hcommand
    exact ih hrest
  | definition hdefinition hblock _ ih =>
    obtain ⟨mid, u, htake, hrest⟩ := yields_takeAll_cons.mp h
    obtain ⟨hframes, hstream⟩ :=
      ((taken_of_take htake).sameStreams hdefinition hblock).receive _
    obtain ⟨hframes', hstream'⟩ := ih hrest
    exact ⟨hframes'.trans hframes, hstream'.trans hstream⟩
  | block hopening hclosing _ _ ihinner ihrest =>
    obtain ⟨first, u, htake, hrest⟩ := yields_takeAll_cons.mp h
    obtain rfl := (taken_of_take htake).of_opening hopening
    obtain ⟨second, v, hinner, hrest⟩ := yields_takeAll_append.mp hrest
    obtain ⟨third, w, htake', hrest⟩ := yields_takeAll_cons.mp hrest
    obtain ⟨hframes, hstream⟩ := ihinner hinner
    rw [receive_of_inside rfl] at hframes hstream
    obtain ⟨frame, outer, steps, hopen, rfl⟩ := (taken_of_take htake').of_closing hclosing
    -- the block is gone again, and what was open before is as it was
    have houter : outer = d.openBlocks := (List.cons.inj (hopen.symm.trans hframes)).2
    have hsame : d.SameStreams { second with
        openBlocks := outer
        apertures := second.apertures.define
          ⟨frame.code, .block ⟨frame.startLine, frame.body.reverse, steps⟩⟩ } := ⟨houter, hstream⟩
    obtain ⟨hframes', hstream'⟩ := hsame.receive _
    obtain ⟨hframes'', hstream''⟩ := ihrest hrest
    exact ⟨hframes''.trans hframes', hstream''.trans hstream'⟩

private theorem get?_of_closed {opening closing : Token} {code : Nat} {inner body : List Token}
    {within : List ClosedBlock} (hopening : opening.directive? = some (.opening code))
    (hclosing : closing.directive? = some .closing) (hinner : Bracketed inner body within)
    (h : (takeAll format tolerance d (opening :: (inner ++ [closing]))).Yields s d' t) :
    ∃ steps, d'.apertures.get? code = some ⟨code, .block ⟨opening.line, body, steps⟩⟩ := by
  obtain ⟨first, u, htake, hrest⟩ := yields_takeAll_cons.mp h
  obtain rfl := (taken_of_take htake).of_opening hopening
  obtain ⟨second, v, hbody, hlast⟩ := yields_takeAll_append.mp hrest
  have htake' := yields_takeAll_singleton.mp hlast
  obtain ⟨hframes, -⟩ := sameStreams_of_bracketed hinner hbody
  rw [receive_of_inside rfl] at hframes
  obtain ⟨frame, outer, steps, hopen, rfl⟩ := (taken_of_take htake').of_closing hclosing
  obtain ⟨rfl, -⟩ := List.cons.inj (hopen.symm.trans hframes)
  refine ⟨steps, ?_⟩
  simp [Apertures.get?_define]

omit [Scalar α] in
def closed (d : Definitions α) (token : Token) : List Nat :=
  if token.closes then (d.openBlocks.head?.map OpenBlock.code).toList else []

omit [Scalar α] in
theorem closed_of_kind {kind : DefinitionKind}
    (hkind : DefinitionKind.ofText? token.text = some kind) (hne : kind ≠ .block) :
    d.closed token = [] := by
  rw [closed, (not_bracket_of_not_block (Token.not_block_of_kind hkind hne)).2]
  rfl

omit [Scalar α] in
theorem closed_of_command (h : token.isDefinition = false) : d.closed token = [] := by
  rw [closed, (not_bracket_of_not_block (isBlockCommand_of_not_definition h)).2]
  rfl

omit [Scalar α] in
theorem closed_of_opening {code : Nat} (h : token.directive? = some (.opening code)) :
    d.closed token = [] := by
  rw [closed, (opens_of_opening h).2]
  rfl

omit [Scalar α] in
theorem closed_of_closing {frame : OpenBlock} {outer : List OpenBlock}
    (h : token.directive? = some .closing) (hopen : d.openBlocks = frame :: outer) :
    d.closed token = [frame.code] := by
  simp [closed, (closes_of_closing h).2, hopen]

/-- The open blocks and the main stream stay those that the commands so far write. -/
theorem Taken.unfinished {blocks : List ClosedBlock} (h : Taken format tolerance d token s d' t)
    (hread : Unfinished before d.openBlocks d.stream.reverse blocks) :
    ∃ more, more.map ClosedBlock.code = d.closed token ∧
      Unfinished (before ++ [token]) d'.openBlocks d'.stream.reverse (blocks ++ more) := by
  have haside {kind : DefinitionKind} (hkind : DefinitionKind.ofText? token.text = some kind)
      (hne : kind ≠ .block) : ∃ more, more.map ClosedBlock.code = d.closed token ∧
        Unfinished (before ++ [token]) d.openBlocks d.stream.reverse (blocks ++ more) := by
    refine ⟨[], (closed_of_kind hkind hne).symm, ?_⟩
    rw [List.append_nil]
    exact hread.aside (Token.isDefinition_of_kind hkind) (Token.not_block_of_kind hkind hne)
  cases h with
  | command hcommand =>
    have hone : Bracketed [token] [token] [] := .command hcommand .nil
    refine ⟨[], (closed_of_command hcommand).symm, ?_⟩
    cases hopen : d.openBlocks with
    | nil =>
      rw [hopen] at hread
      have hall := hread.append_outside hone
      rw [pass_of_outside hopen]
      simpa only [hopen, List.reverse_cons] using hall
    | cons frame outer =>
      rw [hopen] at hread
      rw [pass_of_inside hopen]
      exact hread.append_inside hone
  | header hkind => exact haside hkind (by decide)
  | apertureMacro hkind _ => exact haside hkind (by decide)
  | aperture hkind _ _ => exact haside hkind (by decide)
  | opening hopening =>
    refine ⟨[], (closed_of_opening hopening).symm, ?_⟩
    rw [List.append_nil]
    exact hread.opening hopening
  | closing hclosing hopen _ _ =>
    rw [hopen] at hread
    refine ⟨_, ?_, hread.closing hclosing⟩
    rw [closed_of_closing hclosing hopen]
    rfl

theorem unfinished_of_takeAll (h : (takeAll format tolerance empty tokens).Yields s d t) :
    ∃ blocks, Unfinished tokens d.openBlocks d.stream.reverse blocks := by
  refine takeAll_induction (I := fun before d _ =>
    ∃ blocks, Unfinished before d.openBlocks d.stream.reverse blocks) ?_ h ⟨[], .outside .nil⟩
  rintro before token d s d' t htaken ⟨blocks, hread⟩
  obtain ⟨more, -, hmore⟩ := htaken.unfinished hread
  exact ⟨_, hmore⟩

/-- A definition can be taken as it stands: macros, apertures and block commands can be read, and
the commands of a block that is closed can be compiled. -/
structure Valid (format : Format) (tolerance : α) (d : Definitions α) (s : Session α)
    (token : Token) : Prop where
  apertureMacro : DefinitionKind.ofText? token.text = some .apertureMacro →
    ∃ m : ApertureMacro α, ApertureMacro.ofCommand token.text = .ok m
  aperture : DefinitionKind.ofText? token.text = some .aperture →
    ∃ a, Aperture.ofCommand token.text format d.macros = .ok a
  directive : token.isBlockCommand → token.directive?.isSome
  body : token.directive? = some .closing → ∀ frame outer, d.openBlocks = frame :: outer →
    ∃ compiled t, (Stream.compile ⟨format, d.apertures, tolerance⟩
      frame.body.reverse).Yields s compiled t

/-- Each definition is valid where it stands. -/
def AllValid (format : Format) (tolerance : α) (s : Session α) (tokens : List Token) : Prop :=
  ∀ before token after d u, tokens = before ++ token :: after →
    (takeAll format tolerance empty before).Yields s d u → Valid format tolerance d u token

omit [Scalar α] in
private theorem exists_yields_define (d : Definitions α) (a : Aperture α) (line : Nat)
    (s : Session α) : ∃ d' t, (d.define a line).Yields s d' t := by
  unfold define
  split
  · exact ⟨_, _, Run.yields_bind.mpr
      ⟨(), _, Run.yields_note.mpr rfl, Run.yields_pure.mpr ⟨rfl, rfl⟩⟩⟩
  · exact ⟨_, _, Run.yields_pure.mpr ⟨rfl, rfl⟩⟩

private theorem valid_of_take (h : (d.take format tolerance token).Yields s d' t) :
    Valid format tolerance d s token := by
  have htaken := taken_of_take h
  constructor
  · intro hkind
    have hnone := directive?_of_not_block (Token.not_block_of_kind hkind (by decide))
    cases htaken with
    | apertureMacro _ hm => exact ⟨_, hm⟩
    | command hcommand => simp [Token.isDefinition_eq_false_iff, hkind] at hcommand
    | _ => simp_all
  · intro hkind
    have hnone := directive?_of_not_block (Token.not_block_of_kind hkind (by decide))
    cases htaken with
    | aperture _ ha _ => exact ⟨_, ha⟩
    | command hcommand => simp [Token.isDefinition_eq_false_iff, hkind] at hcommand
    | _ => simp_all
  · intro hblock
    have hkind := Token.isBlockCommand_iff.mp hblock
    cases htaken with
    | command hcommand => simp [Token.isDefinition_eq_false_iff, hkind] at hcommand
    | _ => simp_all
  · intro hclosing frame outer hframes
    have hkind := kind_of_directive? hclosing
    cases htaken with
    | closing _ hopen hcompile _ =>
      obtain ⟨rfl, rfl⟩ := List.cons.inj (hopen.symm.trans hframes)
      exact ⟨_, _, hcompile⟩
    | command hcommand => simp [Token.isDefinition_eq_false_iff, hkind] at hcommand
    | _ => simp_all

private theorem allValid_of_takeAll (h : (takeAll format tolerance empty tokens).Yields s d t) :
    AllValid format tolerance s tokens := by
  rintro before token after d' u rfl hbefore
  obtain ⟨mid, v, hfront, hrest⟩ := yields_takeAll_append.mp h
  obtain ⟨rfl, rfl⟩ := hfront.unique hbefore
  obtain ⟨_, _, htake, -⟩ := yields_takeAll_cons.mp hrest
  exact valid_of_take htake

private theorem direct_of_valid (h : Valid format tolerance d s token)
    (hkind : DefinitionKind.ofText? token.text = some .block) :
    (∃ d' t, (d.direct format tolerance token).Yields s d' t) ∨
      (token.directive? = some .closing ∧ d.openBlocks = [] ∧
        (d.direct format tolerance token).Fails s { fault := .apertureBlock .notOpen } s) := by
  obtain ⟨directive, hdirective⟩ :=
    Option.isSome_iff_exists.mp (h.directive (Token.isBlockCommand_iff.mpr hkind))
  have hread : (Run.ofExcept ((BlockDirective.ofCommand token.text).mapError .apertureBlock) :
      Run α BlockDirective).Yields s directive s := by
    rw [Token.directive?_eq_some_iff.mp hdirective]
    exact Run.yields_ofExcept.mpr ⟨rfl, rfl⟩
  cases directive with
  | opening code =>
    exact .inl ⟨_, s, Run.yields_bind.mpr ⟨_, s, hread, Run.yields_pure.mpr ⟨rfl, rfl⟩⟩⟩
  | closing =>
    cases hopen : d.openBlocks with
    | nil =>
      refine .inr ⟨hdirective, rfl, Run.fails_bind.mpr (.inr ⟨_, s, hread, ?_⟩)⟩
      simp only [closeBlock, hopen]
      exact Run.fails_fail.mpr ⟨rfl, rfl⟩
    | cons frame outer =>
      obtain ⟨compiled, u, hcompile⟩ := h.body hdirective frame outer hopen
      obtain ⟨d', t, hdefine⟩ := exists_yields_define { d with openBlocks := outer }
        ⟨frame.code, .block ⟨frame.startLine, frame.body.reverse, compiled.steps⟩⟩
        frame.startLine { u with
          log := .blockCompiled frame.code (compiled.steps.length - 1) :: u.log }
      refine .inl ⟨d', t, Run.yields_bind.mpr ⟨_, s, hread, ?_⟩⟩
      simp only [closeBlock, hopen]
      exact Run.yields_bind.mpr ⟨compiled, u, hcompile, Run.yields_bind.mpr
        ⟨(), _, Run.yields_note.mpr rfl, hdefine⟩⟩

private theorem take_of_valid (h : Valid format tolerance d s token) :
    (∃ d' t, (d.take format tolerance token).Yields s d' t) ∨
      (token.directive? = some .closing ∧ d.openBlocks = [] ∧
        (d.take format tolerance token).Fails s { fault := .apertureBlock .notOpen } s) := by
  unfold take
  rcases hkind : DefinitionKind.ofText? token.text with _ | kind
  · exact .inl ⟨_, _, Run.yields_pure.mpr ⟨rfl, rfl⟩⟩
  cases kind with
  | header => exact .inl ⟨_, _, Run.yields_pure.mpr ⟨rfl, rfl⟩⟩
  | apertureMacro =>
    obtain ⟨m, hm⟩ := h.apertureMacro hkind
    refine .inl ⟨_, s, Run.yields_bind.mpr ⟨m, s, ?_, Run.yields_pure.mpr ⟨rfl, rfl⟩⟩⟩
    rw [hm]
    exact Run.yields_ofExcept.mpr ⟨rfl, rfl⟩
  | aperture =>
    obtain ⟨a, ha⟩ := h.aperture hkind
    obtain ⟨d', t, hdefine⟩ := exists_yields_define d a token.line s
    refine .inl ⟨d', t, Run.yields_bind.mpr ⟨a, s, ?_, hdefine⟩⟩
    exact Run.yields_ofExcept.mpr ⟨ha, rfl⟩
  | block => exact direct_of_valid h hkind

private theorem AllValid.of_append (h : AllValid format tolerance s (tokens ++ rest)) :
    AllValid format tolerance s tokens := by
  intro before token after d u hsplit hbefore
  refine h before token (after ++ rest) d u ?_ hbefore
  rw [hsplit, List.append_assoc, List.cons_append]

/-- Valid definitions are all taken, or a command closes a block where none is open. -/
private theorem takeAll_of_allValid (h : AllValid format tolerance s tokens) :
    (∃ d t, (takeAll format tolerance empty tokens).Yields s d t) ∨
      ∃ before closing after commands blocks t, tokens = before ++ closing :: after ∧
        closing.directive? = some .closing ∧ Bracketed before commands blocks ∧
        (takeAll format tolerance empty tokens).Fails s
          ⟨.apertureBlock .notOpen, some ⟨closing.line, closing.text⟩⟩ t := by
  induction tokens using List.reverseRecOn with
  | nil => exact .inl ⟨empty, s, Run.yields_pure.mpr ⟨rfl, rfl⟩⟩
  | append_singleton tokens token ih =>
    rcases ih h.of_append with ⟨d, t, htokens⟩ |
      ⟨before, closing, after, commands, blocks, t, hsplit, hclosing, hread, hfails⟩
    · rcases take_of_valid (h tokens token [] d t rfl htokens) with
        ⟨d', u, htake⟩ | ⟨hclosing, hopen, hfails⟩
      · exact .inl ⟨d', u, yields_takeAll_append.mpr
          ⟨d, t, htokens, yields_takeAll_singleton.mpr htake⟩⟩
      · obtain ⟨blocks, hread⟩ := unfinished_of_takeAll htokens
        rw [hopen] at hread
        cases hread with
        | outside hbracketed =>
          refine .inr ⟨tokens, token, [], _, blocks, t, rfl, hclosing, hbracketed, ?_⟩
          exact fails_takeAll_append.mpr (.inr ⟨d, t, htokens,
            fails_takeAll_cons.mpr (.inl ⟨_, hfails, rfl⟩)⟩)
    · refine .inr ⟨before, closing, after ++ [token], commands, blocks, t, ?_, hclosing, hread,
        fails_takeAll_append.mpr (.inl hfails)⟩
      rw [hsplit, List.append_assoc, List.cons_append]

private theorem surplus_of_bracketed {closing : Token} {commands : List Token}
    {blocks : List ClosedBlock}
    (h : Bracketed before commands blocks) (hclosing : closing.directive? = some .closing) :
    openings (before ++ [closing]) < closings (before ++ [closing]) := by
  obtain ⟨hopens, hcloses⟩ := closes_of_closing hclosing
  have heq := h.openings_eq_closings
  have hone : openings [closing] = 0 ∧ closings [closing] = 1 := by
    simp [openings, closings, hopens, hcloses]
  rw [openings_append, closings_append]
  omega

private theorem yields_takeAll_of_nested (h : AllValid format tolerance s tokens)
    (hn : Nested 0 tokens) : ∃ d t, (takeAll format tolerance empty tokens).Yields s d t := by
  rcases takeAll_of_allValid h with hyields |
    ⟨before, closing, after, commands, blocks, t, rfl, hclosing, hread, -⟩
  · exact hyields
  · have hfront : before ++ [closing] <+: before ++ closing :: after := ⟨after, by simp⟩
    have hle := hn _ hfront
    have hlt := surplus_of_bracketed hread hclosing
    omega

private theorem fails_takeAll_of_surplus {closing : Token} {after : List Token}
    (h : AllValid format tolerance s (before ++ closing :: after))
    (hclosing : closing.directive? = some .closing) (hbefore : Balanced before) :
    ∃ t, (takeAll format tolerance empty (before ++ closing :: after)).Fails s
      ⟨.apertureBlock .notOpen, some ⟨closing.line, closing.text⟩⟩ t := by
  obtain ⟨d, t, htokens⟩ := yields_takeAll_of_nested h.of_append hbefore.1
  obtain ⟨blocks, hread⟩ := unfinished_of_takeAll htokens
  have hopen : d.openBlocks = [] := by
    have hcount := hread.openings_eq
    rw [hbefore.2] at hcount
    exact List.length_eq_zero_iff.mp (by omega)
  rcases take_of_valid (h before closing after d t rfl htokens) with ⟨d', u, htake⟩ | ⟨-, -, hfails⟩
  · obtain ⟨frame, outer, steps, hframes, -⟩ := (taken_of_take htake).of_closing hclosing
    rw [hopen] at hframes
    cases hframes
  · exact ⟨t, fails_takeAll_append.mpr (.inr ⟨d, t, htokens,
      fails_takeAll_cons.mpr (.inl ⟨_, hfails, rfl⟩)⟩)⟩

private theorem directive?_of_takeAll (h : (takeAll format tolerance d tokens).Yields s d' t) :
    ∀ token ∈ tokens, token.isBlockCommand → token.directive?.isSome := by
  refine takeAll_induction (I := fun before _ _ =>
    ∀ token ∈ before, token.isBlockCommand → token.directive?.isSome) ?_ h (List.forall_mem_nil _)
  intro before token d s d' t htaken hbefore
  refine List.forall_mem_append.mpr ⟨hbefore, List.forall_mem_singleton.mpr fun hblock => ?_⟩
  have hkind := Token.isBlockCommand_iff.mp hblock
  cases htaken with
  | command hcommand => simp [Token.isDefinition_eq_false_iff, hkind] at hcommand
  | _ => simp_all

private theorem openBlocks_of_balanced {opening : Token} {code : Nat} {inner : List Token}
    (h : (takeAll format tolerance d (before ++ opening :: inner)).Yields s d' t)
    (hopening : opening.directive? = some (.opening code)) (hinner : Balanced inner) :
    ∃ body outer, d'.openBlocks = ⟨code, opening.line, body⟩ :: outer := by
  obtain ⟨first, u, -, hrest⟩ := yields_takeAll_append.mp h
  obtain ⟨second, v, htake, hall⟩ := yields_takeAll_cons.mp hrest
  obtain rfl := (taken_of_take htake).of_opening hopening
  obtain ⟨commands, blocks, hbracketed⟩ := exists_bracketed hinner (directive?_of_takeAll hall)
  obtain ⟨hframes, -⟩ := sameStreams_of_bracketed hbracketed hall
  rw [receive_of_inside rfl] at hframes
  exact ⟨_, _, hframes⟩

theorem yields_ofTokens_iff : (ofTokens format tolerance tokens).Yields s d t ↔
    (takeAll format tolerance empty tokens).Yields s d t ∧ d.openBlocks = [] := by
  simp only [ofTokens, Run.yields_bind]
  constructor
  · rintro ⟨d', u, hall, _, v, hfinish, h⟩
    obtain ⟨rfl, rfl⟩ := Run.yields_pure.mp h
    unfold finish at hfinish
    split at hfinish
    · obtain ⟨-, rfl⟩ := Run.yields_pure.mp hfinish
      exact ⟨hall, ‹_›⟩
    · exact absurd (Run.yields_located.mp hfinish) Run.yields_fail
  · rintro ⟨hall, hopen⟩
    refine ⟨d, t, hall, (), t, ?_, Run.yields_pure.mpr ⟨rfl, rfl⟩⟩
    simp [finish, hopen]

theorem fails_ofTokens_of_takeAll (h : (takeAll format tolerance empty tokens).Fails s e t) :
    (ofTokens format tolerance tokens).Fails s e t :=
  Run.fails_bind.mpr (.inl h)

/-- An open block at the end is reported where it was opened. -/
theorem fails_ofTokens_of_open {frame : OpenBlock} {outer : List OpenBlock}
    (h : (takeAll format tolerance empty tokens).Yields s d t)
    (hopen : d.openBlocks = frame :: outer) :
    (ofTokens format tolerance tokens).Fails s
      ⟨.unterminatedBlock frame.code,
        some ⟨frame.startLine, "%ABD".toList ++ Text.ofNat frame.code ++ "*%".toList⟩⟩ t := by
  refine Run.fails_bind.mpr (.inr ⟨d, t, h, Run.fails_bind.mpr (.inl ?_)⟩)
  simp only [finish, hopen, Run.fails_located]
  exact ⟨_, Run.fails_fail.mpr ⟨rfl, rfl⟩, rfl⟩

/-- Once the command that closes it has been taken, the block is in the table of apertures with its
commands. -/
def Recorded (format : Format) (tolerance : α) (s : Session α) (front : List Token)
    (closing : Token) (block : ClosedBlock) : Prop :=
  closing.closes ∧ ∃ d u steps, (takeAll format tolerance empty (front ++ [closing])).Yields s d u ∧
    d.apertures.get? block.code = some ⟨block.code, .block ⟨block.startLine, block.body, steps⟩⟩

private theorem recorded_of_split {opening closing : Token} {code : Nat}
    {inner body after : List Token} {within : List ClosedBlock}
    (h : (takeAll format tolerance empty
      (before ++ opening :: (inner ++ closing :: after))).Yields s d t)
    (hopening : opening.directive? = some (.opening code))
    (hclosing : closing.directive? = some .closing) (hinner : Bracketed inner body within) :
    Recorded format tolerance s (before ++ opening :: inner) closing
      ⟨code, opening.line, body⟩ := by
  have hsplit : before ++ opening :: (inner ++ closing :: after) =
      (before ++ opening :: (inner ++ [closing])) ++ after := by simp
  rw [hsplit] at h
  obtain ⟨d', u, hfront, -⟩ := yields_takeAll_append.mp h
  obtain ⟨first, v, -, hblock⟩ := yields_takeAll_append.mp hfront
  obtain ⟨steps, hget⟩ := get?_of_closed hopening hclosing hinner hblock
  refine ⟨Token.closes_iff.mpr hclosing, d', u, steps, ?_, hget⟩
  simpa using hfront

private theorem exists_recorded {commands : List Token} {blocks : List ClosedBlock}
    {block : ClosedBlock} (h : (takeAll format tolerance empty tokens).Yields s d t)
    (hbracketed : Bracketed tokens commands blocks) (hblock : block ∈ blocks) :
    ∃ front closing after, tokens = front ++ closing :: after ∧
      Recorded format tolerance s front closing block := by
  obtain ⟨before, opening, inner, within, closing, after, rfl, hopening, hline, hclosing, hinner⟩ :=
    hbracketed.exists_split hblock
  refine ⟨before ++ opening :: inner, closing, after, by simp, ?_⟩
  have hrecorded := recorded_of_split h hopening hclosing hinner
  rwa [hline] at hrecorded

private theorem exists_opening_of_closes {front after : List Token} {closing : Token}
    (h : (takeAll format tolerance empty (front ++ closing :: after)).Yields s d t)
    (hcloses : closing.closes) :
    ∃ before opening code inner body within, front = before ++ opening :: inner ∧
      opening.directive? = some (.opening code) ∧ Bracketed inner body within ∧
      Recorded format tolerance s front closing ⟨code, opening.line, body⟩ := by
  have hclosing := Token.closes_iff.mp hcloses
  obtain ⟨d', u, hfront, hrest⟩ := yields_takeAll_append.mp h
  obtain ⟨_, _, htake, -⟩ := yields_takeAll_cons.mp hrest
  obtain ⟨frame, outer, steps, hframes, -⟩ := (taken_of_take htake).of_closing hclosing
  obtain ⟨blocks, hread⟩ := unfinished_of_takeAll hfront
  rw [hframes] at hread
  cases hread with
  | inside _ hopening hinner =>
    refine ⟨_, _, _, _, _, _, rfl, hopening, hinner, ?_⟩
    rw [List.append_assoc, List.cons_append] at h
    exact recorded_of_split h hopening hclosing hinner

private theorem fails_ofTokens_iff (hvalid : AllValid format tolerance s tokens) :
    (∃ e t, (ofTokens format tolerance tokens).Fails s e t) ↔
      (∃ front, front <+: tokens ∧ openings front < closings front) ∨
        closings tokens < openings tokens := by
  rcases takeAll_of_allValid hvalid with ⟨d, u, hall⟩ |
    ⟨before, closing, after, commands, blocks, u, rfl, hclosing, hread, hfails⟩
  · obtain ⟨blocks, hread⟩ := unfinished_of_takeAll hall
    have hcount := hread.openings_eq
    constructor
    · rintro ⟨e, t, hfails⟩
      have hopen : d.openBlocks ≠ [] := fun hnil =>
        (yields_ofTokens_iff.mpr ⟨hall, hnil⟩).not_fails hfails
      have hpos := List.length_pos_iff.mpr hopen
      exact .inr (by omega)
    · rintro (⟨front, hfront, hlt⟩ | hlt)
      · have hle := hread.nested front hfront
        omega
      · cases hopen : d.openBlocks with
        | nil =>
          rw [hopen, List.length_nil] at hcount
          omega
        | cons frame outer => exact ⟨_, _, fails_ofTokens_of_open hall hopen⟩
  · have hfront : before ++ [closing] <+: before ++ closing :: after := ⟨after, by simp⟩
    have hlt := surplus_of_bracketed hread hclosing
    exact ⟨fun _ => .inl ⟨_, hfront, hlt⟩, fun _ => ⟨_, u, fails_ofTokens_of_takeAll hfails⟩⟩

/-- Taking definitions matches brackets.  If it goes through, then the brackets match, and the main
stream and the blocks have received what the brackets say, each command once.  Where all definitions
are valid, it fails only for brackets that do not match: at the first command that closes one block
too many, or else for the innermost of the blocks that are left open. -/
theorem bracketed_of_ofTokens (format : Format) (tolerance : α) (tokens : List Token)
    (s : Session α) :
    (∀ d t, (ofTokens format tolerance tokens).Yields s d t →
      Balanced tokens ∧
      (∃ blocks, Bracketed tokens d.stream.reverse blocks ∧
        (d.stream.reverse ++ blocks.flatMap ClosedBlock.body).Perm
          (tokens.filter fun token => !token.isDefinition) ∧
        ∀ block ∈ blocks, ∃ front closing after, tokens = front ++ closing :: after ∧
          Recorded format tolerance s front closing block) ∧
      ∀ front closing after, tokens = front ++ closing :: after → closing.closes →
        ∃ before opening code inner body within, front = before ++ opening :: inner ∧
          opening.directive? = some (.opening code) ∧ Bracketed inner body within ∧
          Recorded format tolerance s front closing ⟨code, opening.line, body⟩) ∧
    (AllValid format tolerance s tokens →
      ((∃ e t, (ofTokens format tolerance tokens).Fails s e t) ↔
        (∃ front, front <+: tokens ∧ openings front < closings front) ∨
          closings tokens < openings tokens) ∧
      (∀ before closing after, tokens = before ++ closing :: after → closing.closes →
        Balanced before → ∃ t, (ofTokens format tolerance tokens).Fails s
          ⟨.apertureBlock .notOpen, some ⟨closing.line, closing.text⟩⟩ t) ∧
      ∀ before opening code inner, tokens = before ++ opening :: inner →
        opening.directive? = some (.opening code) → Nested 0 tokens → Balanced inner →
          ∃ t, (ofTokens format tolerance tokens).Fails s
            ⟨.unterminatedBlock code,
              some ⟨opening.line, "%ABD".toList ++ Text.ofNat code ++ "*%".toList⟩⟩ t) := by
  constructor
  · intro d t h
    obtain ⟨hall, hopen⟩ := yields_ofTokens_iff.mp h
    obtain ⟨blocks, hread⟩ := unfinished_of_takeAll hall
    rw [hopen] at hread
    cases hread with
    | outside hbracketed =>
      refine ⟨hbracketed.balanced, ⟨blocks, hbracketed, hbracketed.perm, ?_⟩, ?_⟩
      · exact fun block hblock => exists_recorded hall hbracketed hblock
      · rintro front closing after rfl hcloses
        exact exists_opening_of_closes hall hcloses
  · intro hvalid
    refine ⟨fails_ofTokens_iff hvalid, ?_, ?_⟩
    · rintro before closing after rfl hcloses hbefore
      obtain ⟨t, hfails⟩ :=
        fails_takeAll_of_surplus hvalid (Token.closes_iff.mp hcloses) hbefore
      exact ⟨t, fails_ofTokens_of_takeAll hfails⟩
    · rintro before opening code inner rfl hopening hnested hinner
      obtain ⟨d, t, hall⟩ := yields_takeAll_of_nested hvalid hnested
      obtain ⟨body, outer, hopen⟩ := openBlocks_of_balanced hall hopening hinner
      exact ⟨t, fails_ofTokens_of_open hall hopen⟩

/-- A block inside a block, with a definition in it, and a command after each of them. -/
def blockInBlock : List Token :=
  [⟨"%ABD20*%".toList, 1⟩, ⟨"G01*".toList, 2⟩, ⟨"%ABD21*%".toList, 3⟩, ⟨"%ADD10C,1*%".toList, 4⟩,
    ⟨"X0Y0D03*".toList, 5⟩, ⟨"%AB*%".toList, 6⟩, ⟨"D21*".toList, 7⟩]

theorem bracketed_of_ofTokens_blockInBlock :
    (∃ (d : Definitions Float) (t : Session Float),
      (ofTokens ⟨.millimeters, 3, 6⟩ Scalar.zero
        (blockInBlock ++ [⟨"%AB*%".toList, 8⟩, ⟨"M02*".toList, 9⟩])).Yields .initial d t ∧
      ∃ blocks, Bracketed (blockInBlock ++ [⟨"%AB*%".toList, 8⟩, ⟨"M02*".toList, 9⟩])
        [⟨"M02*".toList, 9⟩] blocks) ∧
    ∃ t : Session Float, (ofTokens ⟨.millimeters, 3, 6⟩ Scalar.zero blockInBlock).Fails .initial
      ⟨.unterminatedBlock 20, some ⟨1, "%ABD20*%".toList⟩⟩ t := by
  obtain ⟨hstream, hopen⟩ :
      ((ofTokens ⟨.millimeters, 3, 6⟩ (Scalar.zero : Float)
        (blockInBlock ++ [⟨"%AB*%".toList, 8⟩, ⟨"M02*".toList, 9⟩])).outcome
          .initial).1.toOption.map (fun d => d.stream.reverse) = some [⟨"M02*".toList, 9⟩] ∧
      ((takeAll ⟨.millimeters, 3, 6⟩ (Scalar.zero : Float) empty blockInBlock).outcome
        .initial).1.toOption.map (fun d => d.openBlocks.length) = some 1 := by
    decide +kernel
  constructor
  · obtain ⟨d, t, hyields, hshown⟩ := Run.exists_yields_of_outcome hstream
    obtain ⟨-, ⟨blocks, hbracketed, -⟩, -⟩ := (bracketed_of_ofTokens _ _ _ _).1 d t hyields
    rw [hshown] at hbracketed
    exact ⟨d, t, hyields, blocks, hbracketed⟩
  · obtain ⟨d, t, hyields, -⟩ := Run.exists_yields_of_outcome hopen
    obtain ⟨-, -, hinnermost⟩ :=
      (bracketed_of_ofTokens ⟨.millimeters, 3, 6⟩ (Scalar.zero : Float) blockInBlock .initial).2
        (allValid_of_takeAll hyields)
    exact hinnermost [] ⟨"%ABD20*%".toList, 1⟩ 20 _ rfl (by decide) (by decide) (by decide)

end Gerber.Definitions
