import Gerber.Proofs.Definitions.Refusal
import Gerber.Proofs.Program.Unwinding

/-!
# What errors are attributed to

An error of a compilation lies at the command that was refused, or at the command that opened a
block which is left open.  Only a missing format, a missing stop, and what is found in unwinding
have no place.  If a command of a block is refused while the block is compiled, then the error lies
at this command, not at the one that closes the block.
-/

namespace Gerber

/-- A cause with the places that have been put around it. -/
inductive Placed where
  | bare (fault : Fault)
  | atPlace (place : Place) (inner : Placed)

namespace Placed

/-- Puts a place around an error that has none. -/
def locate (line : Nat) (text : Text) : Placed → Placed
  | .bare fault => .atPlace ⟨line, text⟩ (.bare fault)
  | .atPlace place inner => .atPlace place inner

end Placed

/-- An error with its place around the cause. -/
def Error.placed (e : Error) : Placed :=
  match e.place with
  | some place => .atPlace place (.bare e.fault)
  | none => .bare e.fault

theorem Error.placed_locate (e : Error) (line : Nat) (text : Text) :
    (e.locate line text).placed = e.placed.locate line text := by
  rcases e with ⟨fault, _ | place⟩ <;> rfl

/-- The cause inside of all places. -/
def Placed.root : Placed → Fault
  | .bare fault => fault
  | .atPlace _ inner => inner.root

private theorem Error.root_placed (e : Error) : e.placed.root = e.fault := by
  rcases e with ⟨fault, _ | place⟩ <;> rfl

variable {α : Type} [Scalar α]

namespace Program

variable {options : Options α} {tokens : List Token} {bytes : List UInt8} {s t : Session α}
  {e : Error}

def commandConditions : List Nat := formatConditions ++ Definitions.takingConditions

omit [Scalar α] in
private theorem formatCulprit_mem {fs : Token} {mo : Option Token} {fault : Fault}
    (hfs : fs ∈ tokens)
    (hmo : ∀ token, mo = some token → token ∈ tokens) : formatCulprit fs mo fault ∈ tokens := by
  unfold formatCulprit
  split
  · cases mo with
    | none => exact hfs
    | some token => exact hmo token rfl
  · exact hfs

omit [Scalar α] in
private theorem liesIn_of_findFormat (h : (findFormat tokens : Run α Format).Fails s e t) :
    e = { fault := .missingFormat } ∨ e.LiesIn tokens commandConditions := by
  unfold findFormat at h
  split at h
  · exact .inl (Run.fails_fail.mp h).1
  · rename_i fs hfs
    simp only at h
    split at h
    · exact absurd h Run.fails_pure
    · rename_i fault hfault
      obtain ⟨_, hfail, rfl⟩ := Run.fails_located.mp h
      obtain ⟨rfl, -⟩ := Run.fails_fail.mp hfail
      have hcode := (Format.faultsIn_ofCommands _ _).code_mem fault hfault
      refine .inr ⟨formatCulprit fs (firstWith? "%MO".toList tokens) fault, ?_, rfl,
        List.mem_append_left _ hcode, ?_⟩
      · exact formatCulprit_mem (List.mem_of_find?_eq_some hfs)
          fun mo hmo => List.mem_of_find?_eq_some hmo
      · rintro rfl
        exact absurd hcode (by decide)

/-- What an error of a compilation is attributed to. -/
inductive Attributed (options : Options α) (tokens : List Token) : Placed → Prop
  | missingFormat : Attributed options tokens (.bare .missingFormat)
  | missingStop : Attributed options tokens (.bare .missingStop)
  /-- A file that is prepared cannot be unwound. -/
  | unwinding {format : Format} {definitions : Definitions α} {compiled : Compiled α}
      {fault : Fault} {u v : Session α} :
      Prepared format options.tolerance tokens definitions compiled u →
      (unwind definitions.apertures options.maxPasses compiled.steps).Fails u { fault } v →
      (∃ why, fault = .stepRepeat why) ∨ fault = .unwindLimit options.maxPasses →
        Attributed options tokens (.bare fault)
  /-- A command of the file is refused. -/
  | command {token : Token} {fault : Fault} :
      token ∈ tokens → fault.code ∈ commandConditions →
      (fault = .regionNotOpen → token.text = "G37*".toList) →
        Attributed options tokens (.atPlace ⟨token.line, token.text⟩ (.bare fault))
  /-- A block is left open; the command that opened it is written anew. -/
  | unterminated {opening : Token} {code : Nat} :
      opening ∈ tokens → opening.directive? = some (.opening code) →
        Attributed options tokens
          (.atPlace ⟨opening.line, "%ABD".toList ++ Text.ofNat code ++ "*%".toList⟩
            (.bare (.unterminatedBlock code)))

private theorem attributed_of_liesIn (h : e.LiesIn tokens commandConditions) :
    Attributed options tokens e.placed := by
  obtain ⟨token, hmem, hplace, hcode, hregion⟩ := h
  rw [Error.placed, hplace]
  exact .command hmem hcode hregion

private theorem attributed_of_failsAt (h : FailsAt options tokens e t) :
    Attributed options tokens e.placed := by
  cases h with
  | format hformat =>
    rcases liesIn_of_findFormat hformat with rfl | hlies
    · exact .missingFormat
    · exact attributed_of_liesIn hlies
  | definitions hdefinitions =>
    rcases Definitions.liesIn_of_ofTokens hdefinitions with
      hlies | ⟨opening, hmem, code, hopening, rfl⟩
    · exact attributed_of_liesIn (hlies.mono (List.Subset.refl _) (List.subset_append_right _ _))
    · exact .unterminated hmem hopening
  | stream hdefinitions hcompile =>
    exact attributed_of_liesIn ((Stream.liesIn_of_compile hcompile).mono
      (Definitions.stream_of_ofTokens hdefinitions) (by decide))
  | missingStop he =>
    subst he
    exact .missingStop
  | unwinding hprepared hunwind =>
    rcases hprepared.unwind_outcome options.maxPasses with
      ⟨-, why, u, hfails⟩ | ⟨-, -, u, hfails⟩ | ⟨-, -, out, u, hyields⟩
    · obtain ⟨rfl, -⟩ := hfails.unique hunwind
      exact .unwinding hprepared hunwind (.inl ⟨why, rfl⟩)
    · obtain ⟨rfl, -⟩ := hfails.unique hunwind
      exact .unwinding hprepared hunwind (.inr rfl)
    · exact absurd hunwind hyields.not_fails

/-- What is done before the definitions are taken: the format is found. -/
def preamble (tokens : List Token) : Run α Format := do
  Run.note (.tokenized tokens.length)
  let format ← findFormat tokens
  Run.note (.format format.integerDigits format.decimalDigits format.units.title)
  pure format

/-- The command `closing` closes a block whose command `command` cannot be carried out, while those
before it in the block can. -/
inductive RefusedInBlock (options : Options α) (tokens : List Token) (closing command : Token)
    (e : Error) : Prop
  | intro {format : Format} {before after front rest : List Token} {d : Definitions α}
      {frame : OpenBlock} {outer : List OpenBlock} {cursor : Stream.Cursor α}
      {r u v w : Session α} :
      (preamble tokens).Yields .initial format r → tokens = before ++ closing :: after →
      (Definitions.takeAll format options.tolerance .empty before).Yields r d u →
      closing.directive? = some .closing → d.openBlocks = frame :: outer →
      frame.body.reverse = front ++ command :: rest →
      (Stream.advance ⟨format, d.apertures, options.tolerance⟩ .initial front).Yields u
        (cursor, false) v →
      (Stream.apply ⟨format, d.apertures, options.tolerance⟩ cursor.pending cursor.last.coord
        command).Fails v e w → RefusedInBlock options tokens closing command e

private theorem fails_ofTokens_of_definitions {format : Format} {r : Session α}
    (hformat : (preamble tokens).Yields s format r)
    (h : (Definitions.ofTokens format options.tolerance tokens).Fails r e t) :
    (ofTokens options tokens).Fails s e t := by
  simp only [preamble, Run.yields_bind, Run.yields_note, Run.yields_pure] at hformat
  obtain ⟨_, _, hcount, _, u, hfind, _, v, hnote, rfl, rfl⟩ := hformat
  refine Run.fails_bind.mpr (.inr ⟨(), _, Run.yields_note.mpr hcount, ?_⟩)
  refine Run.fails_bind.mpr (.inr ⟨_, u, hfind, ?_⟩)
  refine Run.fails_bind.mpr (.inr ⟨(), _, Run.yields_note.mpr hnote, ?_⟩)
  exact Run.fails_bind.mpr (.inl h)

private theorem fails_of_refusedInBlock {closing command : Token}
    (h : RefusedInBlock options tokens closing command e) :
    command ∈ tokens ∧ command.text ≠ closing.text ∧ ∃ w, (ofTokens options tokens).Fails .initial
      ⟨e.fault, some ⟨command.line, command.text⟩⟩ w := by
  obtain ⟨hformat, hsplit, hbefore, hclosing, hopen, hbody, hfront, hfails⟩ := h
  rename_i format before after front rest d frame outer cursor r u v w
  obtain ⟨fault, rfl, -⟩ := Stream.refusal_of_apply hfails
  obtain ⟨hmem, hcommand⟩ := (Definitions.frame_of_takeAll hbefore hopen).2 command
    (List.mem_reverse.mp (by rw [hbody]; simp))
  refine ⟨by rw [hsplit]; exact List.mem_append_left _ hmem, ?_, w, ?_⟩
  · intro htext
    have hdefinition := Token.isDefinition_of_isBlockCommand
      (Token.isBlockCommand_of_directive? hclosing)
    rw [Token.isDefinition, ← htext] at hdefinition
    exact absurd (hcommand.symm.trans hdefinition) (by decide)
  · have hcompile : (Stream.compile ⟨format, d.apertures, options.tolerance⟩
        frame.body.reverse).Fails u ⟨fault, some ⟨command.line, command.text⟩⟩ w :=
      Stream.fails_compile_iff.mpr (Stream.fails_advance_iff.mpr
        ⟨front, command, rest, cursor, v, hbody, hfront, Run.fails_located.mpr ⟨_, hfails, rfl⟩⟩)
    have htake := Definitions.fails_take_of_compile hclosing hopen hcompile
    refine fails_ofTokens_of_definitions hformat (Definitions.fails_ofTokens_of_takeAll ?_)
    exact Definitions.fails_takeAll_iff.mpr ⟨before, closing, after, d, u, hsplit, hbefore,
      Run.fails_located.mpr ⟨_, htake, rfl⟩⟩

private theorem ofBytes_eq_error_iff :
    (ofBytes options bytes).1 = .error e ↔
      ∃ t, (ofTokens options (Token.ofBytes bytes)).Fails .initial e t := by
  constructor
  · intro h
    exact ⟨_, Prod.ext h rfl⟩
  · rintro ⟨t, h⟩
    exact congrArg Prod.fst h

private theorem Attributed.root_ne_stepRepeatNotOpen {placed : Placed}
    (h : Attributed options tokens placed) (id : Nat) : placed.root ≠ .stepRepeatNotOpen id := by
  intro hid
  cases h with
  | missingFormat => cases hid
  | missingStop => cases hid
  | unwinding _ _ hcause =>
    rcases hcause with ⟨why, rfl⟩ | rfl
    · cases hid
    · cases hid
  | @command token fault _ hcode _ =>
    cases (show fault = .stepRepeatNotOpen id from hid)
    rw [Fault.code] at hcode
    exact absurd hcode (by decide)
  | unterminated _ _ => cases hid

private theorem Attributed.exists_token {placed : Placed} (h : Attributed options tokens placed)
    (hregion : placed.root = .regionNotOpen) :
    ∃ token ∈ tokens, token.text = "G37*".toList ∧
      placed = .atPlace ⟨token.line, token.text⟩ (.bare .regionNotOpen) := by
  cases h with
  | missingFormat => cases hregion
  | missingStop => cases hregion
  | unwinding _ _ hcause =>
    rcases hcause with ⟨why, rfl⟩ | rfl
    · cases hregion
    · cases hregion
  | @command token fault hmem _ htext =>
    cases (show fault = .regionNotOpen from hregion)
    exact ⟨token, hmem, htext rfl, rfl⟩
  | unterminated _ _ => cases hregion

/-- Every error of a compilation is attributed as described.  No step-and-repeat block is missing,
and a region only where a command closes one.  The refusal of a command inside of a block is
attributed to this command. -/
theorem attributed_of_ofBytes (options : Options α) (bytes : List UInt8) :
    (∀ e, (ofBytes options bytes).1 = .error e →
      Attributed options (Token.ofBytes bytes) e.placed ∧
      (∀ id, e.fault ≠ .stepRepeatNotOpen id) ∧
      (e.fault = .regionNotOpen → ∃ token ∈ Token.ofBytes bytes, token.text = "G37*".toList ∧
        e.placed = .atPlace ⟨token.line, token.text⟩ (.bare .regionNotOpen))) ∧
    ∀ closing command e, RefusedInBlock options (Token.ofBytes bytes) closing command e →
      command ∈ Token.ofBytes bytes ∧ command.text ≠ closing.text ∧
        (ofBytes options bytes).1 = .error ⟨e.fault, some ⟨command.line, command.text⟩⟩ := by
  constructor
  · intro e he
    obtain ⟨t, hfails⟩ := ofBytes_eq_error_iff.mp he
    have hattributed : Attributed options (Token.ofBytes bytes) e.placed :=
      attributed_of_failsAt (failsAt_of_ofTokens rfl hfails)
    rw [← e.root_placed]
    exact ⟨hattributed, hattributed.root_ne_stepRepeatNotOpen, hattributed.exists_token⟩
  · intro closing command e hrefused
    obtain ⟨hmem, hne, hfails⟩ := fails_of_refusedInBlock hrefused
    exact ⟨hmem, hne, ofBytes_eq_error_iff.mpr hfails⟩

/-- A block that selects an aperture which the file does not define. -/
def selectionInBlock : List UInt8 :=
  "%FSLAX36Y36*%\n%MOMM*%\n%ABD20*%\nD11*\n%AB*%\nM02*".toList.map fun c => UInt8.ofNat c.toNat

private theorem refusedInBlock_selectionInBlock :
    RefusedInBlock (Options.standard : Options Float) (Token.ofBytes selectionInBlock)
      ⟨"%AB*%".toList, 5⟩ ⟨"D11*".toList, 4⟩ { fault := .apertureNotFound 11 } := by
  obtain ⟨hsplit, hopen⟩ :
      Token.ofBytes selectionInBlock = (Token.ofBytes selectionInBlock).take 4 ++
        [⟨"%AB*%".toList, 5⟩, ⟨"M02*".toList, 6⟩] ∧
      ((do
        let format ← preamble (Token.ofBytes selectionInBlock)
        Definitions.takeAll format (Options.standard : Options Float).tolerance .empty
          ((Token.ofBytes selectionInBlock).take 4) :
            Run Float (Definitions Float)).outcome .initial).1.toOption.map
              (fun d => (d.openBlocks.map OpenBlock.body, (d.apertures.get? 11).isNone)) =
        some ([[⟨"D11*".toList, 4⟩]], true) := by
    unfold selectionInBlock
    repeat rw [String.toList_ofList]
    decide +kernel
  obtain ⟨d, u, hyields, hshown⟩ := Run.exists_yields_of_outcome hopen
  obtain ⟨format, r, hformat, hbefore⟩ := Run.yields_bind.mp hyields
  rw [Prod.mk.injEq, List.map_eq_singleton_iff] at hshown
  obtain ⟨⟨frame, hframes, hbody⟩, hnone⟩ := hshown
  have hall : frame.body.reverse = [] ++ [⟨"D11*".toList, 4⟩] := by rw [hbody]; rfl
  have hlookup : d.apertures.lookup 11 = .error (.apertureNotFound 11) := by
    rw [Apertures.lookup, Option.isNone_iff_eq_none.mp hnone]
  have hcommand : Command.ofText "D11*".toList = .select 11 := by decide
  have hfails : (Stream.apply ⟨format, d.apertures, (Options.standard : Options Float).tolerance⟩
      Stream.Cursor.initial.pending Stream.Cursor.initial.last.coord ⟨"D11*".toList, 4⟩).Fails u
        { fault := .apertureNotFound 11 } u := by
    simp only [Stream.apply, hcommand, hlookup]
    exact Run.fails_bind.mpr (.inl (Run.fails_ofExcept.mpr ⟨_, rfl, rfl, rfl⟩))
  exact .intro hformat hsplit hbefore (by decide) hframes hall
    (Run.yields_pure.mpr ⟨rfl, rfl⟩) hfails

theorem attributed_of_ofBytes_selectionInBlock :
    (ofBytes (Options.standard : Options Float) selectionInBlock).1 =
      .error ⟨.apertureNotFound 11, some ⟨4, "D11*".toList⟩⟩ ∧
    Attributed (Options.standard : Options Float) (Token.ofBytes selectionInBlock)
      (.atPlace ⟨4, "D11*".toList⟩ (.bare (.apertureNotFound 11))) := by
  obtain ⟨hattributed, hrefused⟩ :=
    attributed_of_ofBytes (Options.standard : Options Float) selectionInBlock
  obtain ⟨-, -, herror⟩ := hrefused _ _ _ refusedInBlock_selectionInBlock
  exact ⟨herror, (hattributed _ herror).1⟩

end Program

end Gerber
