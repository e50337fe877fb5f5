import Gerber.Proofs.Definitions.Brackets
import Gerber.Proofs.Stream.Effect

/-!
# What definitions change

A command that is taken changes the table of apertures in one of two ways, by an aperture that is
no block or by a block whose commands have just been compiled, or not at all.  What all these
changes keep holds once all definitions are taken.
-/

namespace Gerber

variable {α : Type}

namespace Apertures

private theorem find?_insert (a : Aperture α) (entries : List (Aperture α)) (code : Nat) :
    (insert a entries).find? (fun b => b.code == code) =
      if a.code = code then some a else entries.find? (fun b => b.code == code) := by
  have hcons (b : Aperture α) (rest : List (Aperture α)) :
      (b :: rest).find? (fun b => b.code == code) =
        if b.code = code then some b else rest.find? (fun b => b.code == code) := by
    by_cases h : b.code = code <;> simp [h]
  induction entries with
  | nil => exact hcons a []
  | cons b rest ih =>
    rw [insert]
    split
    · exact hcons a _
    · split
      case isTrue heq =>
        rw [hcons a, hcons b, ← heq]
        by_cases h : a.code = code
        · rw [if_pos h, if_pos h]
        · rw [if_neg h, if_neg h, if_neg h]
      case isFalse hne =>
        rw [hcons b, hcons b, ih]
        by_cases h : b.code = code
        · rw [if_pos h, if_pos h, if_neg fun ha => hne (ha.trans h.symm)]
        · rw [if_neg h, if_neg h]

/-- The aperture defined last is the one of its code, and the others stay. -/
theorem get?_define (table : Apertures α) (a : Aperture α) (code : Nat) :
    (table.define a).get? code = if a.code = code then some a else table.get? code :=
  find?_insert a table.entries code

theorem block?_define {table : Apertures α} {a : Aperture α} {code : Nat}
    {block : BlockAperture α} (h : (table.define a).block? code = some block) :
    a.block? = some block ∨ table.block? code = some block := by
  unfold block? at h
  rw [get?_define] at h
  split at h
  · exact .inl h
  · exact .inr h

end Apertures

namespace Shape

variable [Scalar α]

private theorem block?_of_ofVertices {diameter vertices rotation : α} {hole : Option α}
    {shape : Shape α}
    (h : ofVertices diameter vertices rotation hole = .ok shape) : shape.block? = none := by
  unfold ofVertices at h
  split at h
  · split at h
    · cases h
      rfl
    · cases h
  · cases h

private theorem block?_of_ofTemplate {macros : Macros α} {scale : α}
    {located : DefinitionFault → Fault} {template : Text} {parameters : List α} {shape : Shape α}
    (h : ofTemplate macros scale located template parameters = .ok shape) :
    shape.block? = none := by
  unfold ofTemplate at h
  split at h
  · rw [Except.mapError_eq_ok] at h
    unfold ofCircle at h
    split at h <;> cases h <;> rfl
  · rw [Except.mapError_eq_ok] at h
    unfold ofSides at h
    split at h <;> cases h <;> rfl
  · rw [Except.mapError_eq_ok] at h
    unfold ofSides at h
    split at h <;> cases h <;> rfl
  · rw [Except.mapError_eq_ok] at h
    unfold ofPolygon at h
    split at h
    · exact block?_of_ofVertices h
    · exact block?_of_ofVertices h
    · exact block?_of_ofVertices h
    · cases h
  · unfold ofMacro at h
    split at h
    · cases h
    · obtain ⟨figures, -, rfl⟩ := Except.map_eq_ok.mp h
      rfl

end Shape

/-- A command that defines an aperture defines no block. -/
theorem Aperture.block?_of_ofCommand [Scalar α] {source : Text} {format : Format}
    {macros : Macros α} {a : Aperture α} (h : ofCommand source format macros = .ok a) :
    a.block? = none := by
  unfold ofCommand at h
  simp only at h
  split at h
  · cases h
  · rw [Except.bind_eq_ok] at h
    obtain ⟨⟨code, rest⟩, -, h⟩ := h
    simp only at h
    split at h
    · cases h
    · split at h
      · cases h
      · rw [Except.bind_eq_ok] at h
        obtain ⟨shape, hshape, h⟩ := h
        cases h
        exact Shape.block?_of_ofTemplate hshape

namespace Definitions

variable [Scalar α]

/-- How a command is taken that does not fail. -/
inductive Taken (format : Format) (tolerance : α) (d : Definitions α) (token : Token)
    (s : Session α) : Definitions α → Session α → Prop
  | command : token.isDefinition = false → Taken format tolerance d token s (d.pass token) s
  | header : DefinitionKind.ofText? token.text = some .header → Taken format tolerance d token s d s
  | apertureMacro {m : ApertureMacro α} :
      DefinitionKind.ofText? token.text = some .apertureMacro →
      ApertureMacro.ofCommand token.text = .ok m →
        Taken format tolerance d token s { d with macros := d.macros.define m } s
  | aperture {a : Aperture α} {t : Session α} :
      DefinitionKind.ofText? token.text = some .aperture →
      Aperture.ofCommand token.text format d.macros = .ok a → s.SameBooks t →
        Taken format tolerance d token s { d with apertures := d.apertures.define a } t
  | opening {code : Nat} :
      token.directive? = some (.opening code) →
        Taken format tolerance d token s
          { d with openBlocks := ⟨code, token.line, []⟩ :: d.openBlocks } s
  | closing {frame : OpenBlock} {outer : List OpenBlock} {compiled : Compiled α}
      {u t : Session α} :
      token.directive? = some .closing → d.openBlocks = frame :: outer →
      (Stream.compile ⟨format, d.apertures, tolerance⟩ frame.body.reverse).Yields s compiled u →
      u.SameBooks t →
        Taken format tolerance d token s
          { d with
            openBlocks := outer
            apertures := d.apertures.define
              ⟨frame.code, .block ⟨frame.startLine, frame.body.reverse, compiled.steps⟩⟩ } t

/-- What taking a command changes in the table of apertures and in the books. -/
inductive Change (format : Format) (tolerance : α) (d : Definitions α) (s : Session α) :
    Definitions α → Session α → Prop
  | aside {d' : Definitions α} {t : Session α} :
      d'.apertures = d.apertures → s.SameBooks t → Change format tolerance d s d' t
  | aperture {a : Aperture α} {d' : Definitions α} {t : Session α} :
      a.block? = none → d'.apertures = d.apertures.define a → s.SameBooks t →
        Change format tolerance d s d' t
  | block {code line : Nat} {body : List Token} {compiled : Compiled α} {d' : Definitions α}
      {u t : Session α} :
      (Stream.compile ⟨format, d.apertures, tolerance⟩ body).Yields s compiled u →
      d'.apertures = d.apertures.define ⟨code, .block ⟨line, body, compiled.steps⟩⟩ →
      u.SameBooks t → Change format tolerance d s d' t

variable {format : Format} {tolerance : α} {d d' : Definitions α} {s t : Session α}

omit [Scalar α] in
private theorem eq_of_define {a : Aperture α} {line : Nat} (h : (d.define a line).Yields s d' t) :
    d' = { d with apertures := d.apertures.define a } ∧ s.SameBooks t := by
  unfold define at h
  split at h
  · rw [Run.yields_bind] at h
    obtain ⟨_, u, hnote, h⟩ := h
    obtain ⟨rfl, rfl⟩ := Run.yields_pure.mp h
    exact ⟨rfl, .of_note hnote⟩
  · obtain ⟨rfl, rfl⟩ := Run.yields_pure.mp h
    exact ⟨rfl, .refl _⟩

private theorem taken_of_direct {token : Token}
    (h : (d.direct format tolerance token).Yields s d' t) :
    Taken format tolerance d token s d' t := by
  unfold direct at h
  simp only [Run.yields_bind, Run.yields_ofExcept, Except.mapError_eq_ok] at h
  obtain ⟨directive, _, ⟨hdirective, rfl⟩, h⟩ := h
  rw [← Token.directive?_eq_some_iff] at hdirective
  cases directive with
  | opening code =>
    obtain ⟨rfl, rfl⟩ := Run.yields_pure.mp h
    exact .opening hdirective
  | closing =>
    simp only [closeBlock] at h
    split at h
    · exact absurd h Run.yields_fail
    · rename_i frame outer hframes
      simp only [Run.yields_bind] at h
      obtain ⟨compiled, u, hcompile, _, v, hnote, h⟩ := h
      obtain ⟨rfl, hbooks⟩ := eq_of_define h
      exact .closing hdirective hframes hcompile ((Session.SameBooks.of_note hnote).trans hbooks)

theorem taken_of_take {token : Token} (h : (d.take format tolerance token).Yields s d' t) :
    Taken format tolerance d token s d' t := by
  unfold take at h
  split at h
  · obtain ⟨rfl, rfl⟩ := Run.yields_pure.mp h
    exact .command (Token.isDefinition_eq_false_iff.mpr ‹_›)
  · obtain ⟨rfl, rfl⟩ := Run.yields_pure.mp h
    exact .header ‹_›
  · simp only [Run.yields_bind, Run.yields_ofExcept, Run.yields_pure, Except.mapError_eq_ok] at h
    obtain ⟨m, _, ⟨hm, rfl⟩, rfl, rfl⟩ := h
    exact .apertureMacro ‹_› hm
  · simp only [Run.yields_bind, Run.yields_ofExcept] at h
    obtain ⟨a, _, ⟨ha, rfl⟩, h⟩ := h
    obtain ⟨rfl, hbooks⟩ := eq_of_define h
    exact .aperture ‹_› ha hbooks
  · exact taken_of_direct h

theorem Taken.change {token : Token} (h : Taken format tolerance d token s d' t) :
    Change format tolerance d s d' t := by
  cases h with
  | command =>
    refine .aside ?_ (.refl _)
    unfold pass
    split <;> rfl
  | header => exact .aside rfl (.refl _)
  | apertureMacro => exact .aside rfl (.refl _)
  | aperture _ ha hbooks => exact .aperture (Aperture.block?_of_ofCommand ha) rfl hbooks
  | opening => exact .aside rfl (.refl _)
  | closing _ _ hcompile hbooks => exact .block hcompile rfl hbooks

private theorem invariant_of_takeAll {I : Definitions α → Session α → Prop}
    (hkeep : ∀ d s d' t, Change format tolerance d s d' t → I d s → I d' t)
    {tokens : List Token} (h : (takeAll format tolerance d tokens).Yields s d' t)
    (hinv : I d s) : I d' t := by
  induction tokens generalizing d s with
  | nil =>
    obtain ⟨rfl, rfl⟩ := Run.yields_pure.mp h
    exact hinv
  | cons token rest ih =>
    rw [takeAll, Run.yields_bind] at h
    obtain ⟨mid, u, htake, h⟩ := h
    exact ih h (hkeep _ _ _ _ (taken_of_take (Run.yields_located.mp htake)).change hinv)

/-- What every change keeps holds of the definitions of a file. -/
theorem invariant {I : Definitions α → Session α → Prop}
    (hkeep : ∀ d s d' t, Change format tolerance d s d' t → I d s → I d' t)
    {tokens : List Token} (h : (ofTokens format tolerance tokens).Yields s d t)
    (hinv : I empty s) : I d t := by
  simp only [ofTokens, Run.yields_bind] at h
  obtain ⟨d', u, hall, _, v, hfinish, h⟩ := h
  obtain ⟨rfl, rfl⟩ := Run.yields_pure.mp h
  unfold finish at hfinish
  split at hfinish
  · obtain ⟨-, rfl⟩ := Run.yields_pure.mp hfinish
    exact invariant_of_takeAll hkeep hall hinv
  · exact absurd (Run.yields_located.mp hfinish) Run.yields_fail

end Definitions

end Gerber
