import Gerber.Proofs.Text.Utf8
import Gerber.Proofs.Token.Reading
import Mathlib.Algebra.GroupWithZero.Nat

/-!
# Where commands stand

Every command is cut from a block of the text, and its line is the line on which the block starts.
That is the line of the command's own first character unless the block goes over to another line in
front of the command.
-/

namespace Gerber.Token

open Text

/-- A command and where it stands: `before` is the text in front of the block that it is cut from,
and `lead` what stands in the block in front of it. -/
structure Site where
  before : Text
  lead : Text
  command : Text
deriving DecidableEq

namespace Site

def line (site : Site) : Nat := 1 + (site.before ++ site.lead).count '\n'

def start (site : Site) : Nat := (site.before ++ site.lead).length

def token (site : Site) : Token := ⟨site.command, 1 + site.before.count '\n'⟩

end Site

/-- The text up to its character of index `n`, where line breaks are not counted. -/
def upTo : Nat → Text → Text
  | _, [] => []
  | n, c :: t =>
    if isBreak c then c :: upTo n t
    else if n = 0 then []
    else c :: upTo (n - 1) t

/-- Texts with the numbers of characters in front of them, counted from `n`, if each takes up a
number of characters. -/
def located (width : Text → Nat) (n : Nat) : List Text → List (Nat × Text)
  | [] => []
  | t :: ts => (n, t) :: located width (n + width t) ts

/-- The commands of a data block, each with what stands in the block in front of it.  The star of a
glued code is not in the block. -/
def ledCommands (source : Text) : List (Text × Text) :=
  (located (fun command => command.length - 1) 0 (commands (shown source))).map
    fun part => (upTo part.1 source, part.2)

/-- The commands of an extended block, each with what stands in the block in front of it.  The
percent sign in front of the block is the first command's own. -/
def ledParts (body : Text) (closed : Bool) : List (Text × Text) :=
  match extendedCommands (shown body) closed with
  | [command] => [([], command)]
  | _ =>
    ((located (fun part => part.length + 1) 0 ((shown body).splitOn '*')).filter
      fun part => !(trim part.2).isEmpty).map
        fun part =>
          (if part.1 = 0 then [] else '%' :: upTo part.1 body, '%' :: part.2 ++ ['*', '%'])

/-- What a data block at the front of a text takes up of it. -/
def blockSource (t : Text) : Text := t.take (t.length - (readBlock [] 1 t).2.2.length)

/-- The commands of a text in their order, and where they stand after `before`. -/
def sites (before : Text) : Text → List Site
  | [] => []
  | c :: t =>
    if hc : c = '%' then
      let body := t.takeWhile (· != '%')
      let rest := t.dropWhile (· != '%')
      (ledParts body !rest.isEmpty).map (fun led => ⟨before, led.1, led.2⟩) ++
        sites (before ++ c :: body ++ rest.take 1) (rest.drop 1)
    else if isGap c then sites (before ++ [c]) t
    else
      (ledCommands (blockSource (c :: t))).map (fun led => ⟨before, led.1, led.2⟩) ++
        sites (before ++ blockSource (c :: t)) (readBlock [] 1 (c :: t)).2.2
termination_by t => t.length
decreasing_by
  · have h : (t.dropWhile (· != '%')).length ≤ t.length := (List.dropWhile_sublist _).length_le
    simp only [List.length_drop, List.length_cons]
    omega
  · simp
  · exact length_readBlock_lt 1 hc t

/-- The characters of a text that a command is made of: without line breaks they are the command,
except for the star that a glued code is given and the signs that a command is given that is cut
from an extended block. -/
def Spells (own command : Text) : Prop :=
  (∃ c rest, own = c :: rest ∧ isBreak c = false) ∧
    (command = shown own ∨ IsCode (shown own) ∧ command = shown own ++ ['*'] ∨
      command = shown own ++ ['*', '%'] ∨ command = '%' :: shown own ++ ['*', '%'])

/-- A command stands in a text after what its site says. -/
def Site.StandsIn (site : Site) (t : Text) : Prop :=
  ∃ own after, t = site.before ++ site.lead ++ own ++ after ∧ Spells own site.command

section

variable {source own before after : Text} {command : Text}

@[simp] theorem map_snd_located (width : Text → Nat) (n : Nat) (ts : List Text) :
    (located width n ts).map Prod.snd = ts := by
  induction ts generalizing n with
  | nil => rfl
  | cons t ts ih => rw [located, List.map_cons, ih]

private theorem exists_of_mem_located {width : Text → Nat} {n k : Nat} {ts : List Text} {t : Text}
    (h : (k, t) ∈ located width n ts) :
    ∃ front back, ts = front ++ t :: back ∧ k = n + (front.map width).sum := by
  induction ts generalizing n with
  | nil => cases h
  | cons first ts ih =>
    rcases List.mem_cons.mp h with heq | h
    · cases heq
      exact ⟨[], ts, rfl, rfl⟩
    · obtain ⟨front, back, rfl, rfl⟩ := ih h
      exact ⟨first :: front, back, rfl, by simp [Nat.add_assoc]⟩

private theorem exists_upTo (n : Nat) (t : Text) :
    ∃ rest, t = upTo n t ++ rest ∧ shown (upTo n t) = (shown t).take n ∧
      shown rest = (shown t).drop n ∧ ∀ c ∈ rest.head?, isBreak c = false := by
  induction t generalizing n with
  | nil => exact ⟨[], by simp [upTo]⟩
  | cons c t ih =>
    rw [upTo]
    by_cases hbreak : isBreak c = true
    · obtain ⟨rest, ht, htake, hdrop, hhead⟩ := ih n
      rw [if_pos hbreak, shown_cons_of_break hbreak, shown_cons_of_break hbreak]
      exact ⟨rest, by rw [List.cons_append, ← ht], htake, hdrop, hhead⟩
    · have hkept := Bool.eq_false_iff.mpr hbreak
      rw [if_neg hbreak, shown_cons_of_not_break hkept]
      cases n with
      | zero =>
        exact ⟨c :: t, rfl, rfl, shown_cons_of_not_break hkept t, by simpa using hkept⟩
      | succ n =>
        obtain ⟨rest, ht, htake, hdrop, hhead⟩ := ih n
        rw [if_neg n.succ_ne_zero, Nat.succ_sub_one]
        refine ⟨rest, by rw [List.cons_append, ← ht], ?_, hdrop, hhead⟩
        rw [shown_cons_of_not_break hkept, htake, List.take_succ_cons]

private theorem exists_own (front back : Text) (hne : own ≠ [])
    (h : shown source = front ++ own ++ back) :
    ∃ raw after, source = upTo front.length source ++ raw ++ after ∧ shown raw = own ∧
      ∃ c rest, raw = c :: rest ∧ isBreak c = false := by
  obtain ⟨rest, hsource, -, hrest, hhead⟩ := exists_upTo front.length source
  rw [h, List.append_assoc, List.drop_left] at hrest
  obtain ⟨after, hafter, hown, -⟩ := exists_upTo own.length rest
  rw [hrest, List.take_left] at hown
  refine ⟨upTo own.length rest, after, by rw [List.append_assoc, ← hafter, ← hsource], hown, ?_⟩
  cases hraw : upTo own.length rest with
  | nil =>
    rw [hraw] at hown
    exact absurd hown.symm hne
  | cons c tail =>
    rw [hraw] at hafter
    refine ⟨c, tail, rfl, hhead c ?_⟩
    rw [hafter]
    rfl

private theorem exists_own_of_singleton {w : Text} (hne : w ≠ []) {front back : List Text}
    (h : [w] = front ++ command :: back) :
    ∃ lead own rest, w = lead ++ own ++ rest ∧
      lead.length = (front.map fun command => command.length - 1).sum ∧ own ≠ [] ∧
      (command = own ∨ IsCode own ∧ command = own ++ ['*']) := by
  cases front with
  | nil =>
    cases h
    exact ⟨[], command, [], by simp, rfl, hne, .inl rfl⟩
  | cons first front => simp at h

/-- Each command of a data block is made of characters of the block, behind those of the commands in
front of it. -/
private theorem exists_own_of_commands {w : Text} {front back : List Text}
    (h : commands w = front ++ command :: back) :
    ∃ lead own rest, w = lead ++ own ++ rest ∧
      lead.length = (front.map fun command => command.length - 1).sum ∧ own ≠ [] ∧
      (command = own ∨ IsCode own ∧ command = own ++ ['*']) := by
  fun_induction commands w generalizing front with
  | case1 w hcomment =>
    refine exists_own_of_singleton ?_ h
    rintro rfl
    cases hcomment
  | case2 w hcomment code tail hsplit ih =>
    -- a code takes up one character less than its command, which is given a star
    obtain ⟨hcode, -, rfl⟩ := isCode_and_goesOn_of_splitCode? hsplit
    cases front with
    | nil =>
      cases h
      refine ⟨[], code, tail, rfl, rfl, ?_, .inr ⟨hcode, rfl⟩⟩
      obtain ⟨digits, rfl, -⟩ := hcode
      exact List.cons_ne_nil _ _
    | cons first front =>
      rw [List.cons_append, List.cons.injEq] at h
      obtain ⟨rfl, htail⟩ := h
      obtain ⟨lead, own, rest, rfl, hlead, hown⟩ := ih htail
      exact ⟨code ++ lead, own, rest, by simp, by simp [hlead], hown⟩
  | case3 w hcomment hsplit hnone => simp at h
  | case4 w hcomment hsplit hsome =>
    refine exists_own_of_singleton ?_ h
    rintro rfl
    simp at hsome

private theorem exists_lead_of_splitOn {t part : Text} {front back : List Text}
    (h : t.splitOn '*' = front ++ part :: back) :
    ∃ lead rest, t = lead ++ part ++ rest ∧
      lead.length = (front.map fun part => part.length + 1).sum := by
  have hjoin : ['*'].intercalate (t.splitOn '*') = t := List.intercalate_splitOn '*'
  rw [← hjoin, h]
  clear h hjoin
  induction front with
  | nil =>
    cases back with
    | nil => exact ⟨[], [], by simp, rfl⟩
    | cons next back =>
      refine ⟨[], ['*'] ++ ['*'].intercalate (next :: back), ?_, rfl⟩
      rw [List.nil_append, List.intercalate_cons_cons, List.append_assoc, List.nil_append]
  | cons first front ih =>
    obtain ⟨lead, rest, hjoin, hlead⟩ := ih
    obtain ⟨next, others, hnext⟩ := List.exists_cons_of_ne_nil
      (List.append_ne_nil_of_right_ne_nil front (List.cons_ne_nil part back))
    refine ⟨first ++ ['*'] ++ lead, rest, ?_, by simp [hlead]; omega⟩
    rw [List.cons_append, hnext, List.intercalate_cons_cons, ← hnext, hjoin]
    simp

private theorem map_snd_ledCommands (source : Text) :
    (ledCommands source).map Prod.snd = commands (shown source) := by
  rw [ledCommands, List.map_map]
  exact map_snd_located _ 0 _

private theorem spells_of_mem_ledCommands {led : Text × Text} (h : led ∈ ledCommands source) :
    ∃ own after, source = led.1 ++ own ++ after ∧ Spells own led.2 := by
  obtain ⟨⟨k, command⟩, hmem, rfl⟩ := List.mem_map.mp h
  obtain ⟨front, back, hcommands, rfl⟩ := exists_of_mem_located hmem
  obtain ⟨lead, own, rest, hshown, hlead, hne, hown⟩ := exists_own_of_commands hcommands
  obtain ⟨raw, after, hsource, rfl, hhead⟩ := exists_own lead rest hne hshown
  rw [Nat.zero_add, ← hlead]
  exact ⟨raw, after, hsource, hhead, hown.imp_right .inl⟩

private theorem ne_nil_of_not_blank {part : Text} (h : (!(trim part).isEmpty) = true) :
    part ≠ [] := by
  rintro rfl
  cases h

private theorem map_snd_ledParts (body : Text) (closed : Bool) :
    (ledParts body closed).map Prod.snd = extendedCommands (shown body) closed := by
  unfold ledParts
  split
  · rename_i command hwhole
    rw [hwhole]
    rfl
  · rename_i hnot
    rcases extendedCommands_cases (shown body) closed with hwhole | ⟨-, -, hcut⟩
    · exact absurd hwhole (hnot _)
    · have hsnd : (Prod.snd ∘ fun part : Nat × Text =>
          ((if part.1 = 0 then [] else '%' :: upTo part.1 body : Text),
            '%' :: part.2 ++ ['*', '%'])) =
          (fun part : Text => '%' :: part ++ ['*', '%']) ∘ Prod.snd := rfl
      rw [hcut, parts, List.map_map, hsnd, ← List.map_map,
        ← map_snd_located (fun part => part.length + 1) 0 ((shown body).splitOn '*'),
        List.filter_map, map_snd_located]
      rfl

private theorem spells_of_mem_ledParts {body : Text} {closed : Bool} {led : Text × Text}
    (h : led ∈ ledParts body closed) :
    ∃ own after, '%' :: body ++ (if closed then ['%'] else []) = led.1 ++ own ++ after ∧
      Spells own led.2 := by
  have hsign : shown (if closed then ['%'] else []) = if closed then ['%'] else [] := by
    cases closed <;> rfl
  have hopen (t : Text) : shown ('%' :: t) = '%' :: shown t := shown_cons_of_not_break rfl t
  unfold ledParts at h
  split at h
  · rename_i command hwhole
    obtain rfl := List.mem_singleton.mp h
    refine ⟨'%' :: body ++ (if closed then ['%'] else []), [], by simp, ⟨'%', _, rfl, rfl⟩, .inl ?_⟩
    rcases extendedCommands_cases (shown body) closed with heq | ⟨-, hlength, hcut⟩
    · rw [hwhole] at heq
      rw [shown_append, hopen, hsign]
      exact (List.cons.inj heq).1
    · rw [hwhole] at hcut
      have hone := congrArg List.length hcut
      rw [List.length_map, List.length_singleton] at hone
      omega
  · obtain ⟨⟨k, part⟩, hmem, rfl⟩ := List.mem_map.mp h
    obtain ⟨hmem, hblank⟩ := List.mem_filter.mp hmem
    obtain ⟨front, back, hparts, rfl⟩ := exists_of_mem_located hmem
    obtain ⟨lead, rest, hshown, hlead⟩ := exists_lead_of_splitOn hparts
    obtain ⟨raw, after, hbody, rfl, hhead⟩ :=
      exists_own lead rest (ne_nil_of_not_blank hblank) hshown
    rw [Nat.zero_add, ← hlead]
    by_cases hzero : lead.length = 0
    · -- the first part has the percent sign of the block
      have hnone : shown (upTo 0 body) = [] := by
        obtain ⟨-, -, htake, -⟩ := exists_upTo 0 body
        exact htake
      rw [hzero] at hbody ⊢
      refine ⟨'%' :: upTo 0 body ++ raw, after ++ if closed then ['%'] else [], ?_,
        ⟨'%', _, rfl, rfl⟩, .inr (.inr (.inl ?_))⟩
      · conv_lhs => rw [hbody]
        simp
      · rw [shown_append, hopen, hnone]
        rfl
    · refine ⟨raw, after ++ if closed then ['%'] else [], ?_, hhead, .inr (.inr (.inr rfl))⟩
      rw [if_neg hzero]
      conv_lhs => rw [hbody]
      simp

private theorem readBlock_eq_blockSource (line : Nat) (t : Text) :
    blockSource t ++ (readBlock [] 1 t).2.2 = t ∧
      (readBlock [] line t).1 = shown (blockSource t) ∧
      (readBlock [] line t).2.1 = line + (blockSource t).count '\n' ∧
      (readBlock [] line t).2.2 = (readBlock [] 1 t).2.2 := by
  obtain ⟨source, ht, hread, hline⟩ := exists_source [] line t
  have hrest := (readBlock_line [] line 1 t).2
  rw [hrest] at ht
  have htake (rest : Text) (h : t = source ++ rest) : t.take (t.length - rest.length) = source := by
    subst h
    simp
  have hsource : blockSource t = source := htake _ ht
  rw [hsource]
  exact ⟨ht.symm, hread, hline, hrest⟩

private theorem sign_append (t : Text) :
    '%' :: t.takeWhile (· != '%') ++ (t.dropWhile (· != '%')).take 1 ++
      (t.dropWhile (· != '%')).drop 1 = '%' :: t := by
  rw [List.append_assoc, List.take_append_drop, List.cons_append, List.takeWhile_append_dropWhile]

private theorem take_one_eq_sign (t : Text) :
    (t.dropWhile (· != '%')).take 1 = if !(t.dropWhile (· != '%')).isEmpty then ['%'] else [] := by
  rcases dropWhile_sign t with hnil | ⟨rest, hsign⟩
  · rw [hnil]
    rfl
  · rw [hsign]
    rfl

private theorem scan_eq_sites (before t : Text) :
    scan (1 + before.count '\n') t = (sites before t).map Site.token := by
  have hstamp (before : Text) (led : List (Text × Text)) :
      (led.map fun led => (⟨before, led.1, led.2⟩ : Site)).map Site.token =
        (led.map Prod.snd).map (⟨·, 1 + before.count '\n'⟩) := by
    simp [Site.token]
  fun_induction sites before t with
  | case1 before => rw [scan_nil]; rfl
  | case2 before t body rest ih =>
    have hlines : (before ++ '%' :: body ++ rest.take 1).count '\n' =
        before.count '\n' + body.count '\n' := by
      have htake : rest.take 1 = if !rest.isEmpty then ['%'] else [] := take_one_eq_sign t
      rw [htake]
      cases rest.isEmpty <;> simp
    rw [List.map_append, hstamp, map_snd_ledParts, ← ih, hlines, scan_sign, ← Nat.add_assoc]
    rfl
  | case3 before c t hsign hgap ih =>
    rw [scan_gap hgap, ← ih, List.count_append, ← Nat.add_assoc]
  | case4 before c t hsign hgap ih =>
    obtain ⟨-, hread, hline, hrest⟩ := readBlock_eq_blockSource (1 + before.count '\n') (c :: t)
    rw [scan_block hsign (Bool.eq_false_iff.mpr hgap), hread, hline, hrest, List.map_append, hstamp,
      map_snd_ledCommands, ← ih, List.count_append, ← Nat.add_assoc]

private theorem standsIn_of_mem_sites {before t : Text} {site : Site} (h : site ∈ sites before t) :
    site.StandsIn (before ++ t) := by
  fun_induction sites before t with
  | case1 before => cases h
  | case2 before t body rest ih =>
    have hwhole : before ++ '%' :: t =
        before ++ ('%' :: body ++ rest.take 1) ++ rest.drop 1 := by
      rw [List.append_assoc, sign_append]
    rcases List.mem_append.mp h with h | h
    · obtain ⟨led, hled, rfl⟩ := List.mem_map.mp h
      obtain ⟨own, after, hblock, hspells⟩ := spells_of_mem_ledParts hled
      refine ⟨own, after ++ rest.drop 1, ?_, hspells⟩
      have htake : rest.take 1 = if !rest.isEmpty then ['%'] else [] := take_one_eq_sign t
      rw [hwhole, htake, hblock]
      simp
    · have hstands := ih h
      rwa [List.append_assoc before, ← hwhole] at hstands
  | case3 before c t hsign hgap ih =>
    have hstands := ih h
    rwa [List.append_assoc, List.singleton_append] at hstands
  | case4 before c t hsign hgap ih =>
    obtain ⟨hwhole, -⟩ := readBlock_eq_blockSource 1 (c :: t)
    rcases List.mem_append.mp h with h | h
    · obtain ⟨led, hled, rfl⟩ := List.mem_map.mp h
      obtain ⟨own, after, hblock, hspells⟩ := spells_of_mem_ledCommands hled
      refine ⟨own, after ++ (readBlock [] 1 (c :: t)).2.2, ?_, hspells⟩
      conv_lhs => rw [← hwhole, hblock]
      simp
    · have hstands := ih h
      rwa [List.append_assoc, hwhole] at hstands

private theorem length_upTo_lt {n m : Nat} {t : Text} (hnm : n < m) (hn : n < (shown t).length) :
    (upTo n t).length < (upTo m t).length := by
  induction t generalizing n m with
  | nil => simp at hn
  | cons c t ih =>
    rw [upTo, upTo]
    by_cases hbreak : isBreak c = true
    · rw [shown_cons_of_break hbreak] at hn
      rw [if_pos hbreak, if_pos hbreak]
      exact Nat.succ_lt_succ (ih hnm hn)
    · rw [shown_cons_of_not_break (Bool.eq_false_iff.mpr hbreak), List.length_cons] at hn
      rw [if_neg hbreak, if_neg hbreak, if_neg (Nat.ne_zero_of_lt hnm)]
      by_cases hzero : n = 0
      · rw [if_pos hzero]
        exact Nat.succ_pos _
      · rw [if_neg hzero]
        exact Nat.succ_lt_succ (ih (by omega) (by omega))

private theorem le_of_mem_located {width : Text → Nat} {n : Nat} {ts : List Text}
    {part : Nat × Text} (h : part ∈ located width n ts) : n ≤ part.1 := by
  obtain ⟨front, back, -, hk⟩ := exists_of_mem_located (k := part.1) (t := part.2) h
  omega

private theorem pairwise_located {width : Text → Nat} (n : Nat) {ts : List Text}
    (h : ∀ t ∈ ts.dropLast, 0 < width t) :
    (located width n ts).Pairwise fun a b => a.1 < b.1 := by
  induction ts generalizing n with
  | nil => exact .nil
  | cons t ts ih =>
    cases ts with
    | nil => exact List.pairwise_singleton _ _
    | cons next ts =>
      obtain ⟨ht, hts⟩ := List.forall_mem_cons.mp h
      refine .cons (fun part hpart => ?_) (ih _ hts)
      have hle := le_of_mem_located hpart
      exact Nat.lt_of_lt_of_le (Nat.lt_add_of_pos_right ht) hle

private theorem length_pos_of_mem_commands {w : Text} :
    ∀ command ∈ (commands w).dropLast, 0 < command.length - 1 := by
  fun_induction commands w with
  | case1 w hcomment => simp
  | case2 w hcomment code tail hsplit ih =>
    obtain ⟨⟨digits, rfl, -⟩, -⟩ := isCode_and_goesOn_of_splitCode? hsplit
    intro command hmem
    cases htail : commands tail with
    | nil => simp [htail] at hmem
    | cons next others =>
      rw [htail] at hmem ih
      rcases List.mem_cons.mp hmem with rfl | hmem
      · simp
      · exact ih command hmem
  | case3 w hcomment hsplit hnone => simp
  | case4 w hcomment hsplit hsome => simp

private theorem pairwise_ledCommands (source : Text) :
    (ledCommands source).Pairwise fun a b => a.1.length < b.1.length := by
  rw [ledCommands, List.pairwise_map]
  refine (pairwise_located 0 length_pos_of_mem_commands).imp_of_mem ?_
  rintro ⟨k, command⟩ b hmem - hlt
  obtain ⟨front, back, hcommands, rfl⟩ := exists_of_mem_located hmem
  obtain ⟨lead, own, rest, hshown, hlead, hne, -⟩ := exists_own_of_commands hcommands
  refine length_upTo_lt hlt ?_
  have hown := List.length_pos_iff.mpr hne
  simp only [hshown, List.length_append]
  omega

private theorem pairwise_ledParts (body : Text) (closed : Bool) :
    (ledParts body closed).Pairwise fun a b => a.1.length < b.1.length := by
  unfold ledParts
  split
  · exact List.pairwise_singleton _ _
  · rw [List.pairwise_map]
    have hwidth (part : Text) : 0 < part.length + 1 := Nat.succ_pos _
    refine ((pairwise_located 0 fun part _ => hwidth part).filter _).imp_of_mem ?_
    rintro ⟨k, part⟩ ⟨m, other⟩ hmem - hlt
    obtain ⟨hmem, hblank⟩ := List.mem_filter.mp hmem
    obtain ⟨front, back, hparts, rfl⟩ := exists_of_mem_located hmem
    obtain ⟨lead, rest, hshown, hlead⟩ := exists_lead_of_splitOn hparts
    have hk : 0 + (front.map fun part => part.length + 1).sum < (shown body).length := by
      have hpart : 0 < part.length := List.length_pos_iff.mpr (ne_nil_of_not_blank hblank)
      simp only [hshown, List.length_append]
      omega
    have hupTo := length_upTo_lt hlt hk
    simp only [if_neg (Nat.ne_zero_of_lt hlt)]
    split
    · exact Nat.succ_pos _
    · exact Nat.succ_lt_succ hupTo

private theorem length_le_of_mem_sites {t : Text} {site : Site} (h : site ∈ sites before t) :
    before.length ≤ site.before.length := by
  fun_induction sites before t with
  | case1 before => cases h
  | case2 before t body rest ih =>
    rcases List.mem_append.mp h with h | h
    · obtain ⟨led, -, rfl⟩ := List.mem_map.mp h
      exact le_rfl
    · exact le_trans (by simp [Nat.add_assoc]) (ih h)
  | case3 before c t hsign hgap ih => exact le_trans (by simp) (ih h)
  | case4 before c t hsign hgap ih =>
    rcases List.mem_append.mp h with h | h
    · obtain ⟨led, -, rfl⟩ := List.mem_map.mp h
      exact le_rfl
    · exact le_trans (by simp) (ih h)

private theorem pairwise_block {leds : List (Text × Text)} {source rest : Text}
    (hleds : leds.Pairwise fun a b => a.1.length < b.1.length)
    (hown : ∀ led ∈ leds, ∃ own after, source = led.1 ++ own ++ after ∧ Spells own led.2)
    (hsites : (sites (before ++ source) rest).Pairwise fun a b => a.start < b.start) :
    (leds.map (fun led => (⟨before, led.1, led.2⟩ : Site)) ++
      sites (before ++ source) rest).Pairwise fun a b => a.start < b.start := by
  refine List.pairwise_append.mpr ⟨?_, hsites, ?_⟩
  · rw [List.pairwise_map]
    refine hleds.imp fun hlt => ?_
    simpa [Site.start] using hlt
  · -- the block holds at least one character more than what is in front of its last command
    intro a ha b hb
    obtain ⟨led, hled, rfl⟩ := List.mem_map.mp ha
    obtain ⟨own, after, rfl, ⟨⟨c, tail, rfl, -⟩, -⟩⟩ := hown led hled
    have hle := length_le_of_mem_sites hb
    simp only [Site.start, List.length_append, List.length_cons] at hle ⊢
    omega

private theorem pairwise_sites (before t : Text) :
    (sites before t).Pairwise fun a b => a.start < b.start := by
  fun_induction sites before t with
  | case1 before => exact .nil
  | case2 before t body rest ih =>
    have hblock : before ++ '%' :: body ++ rest.take 1 =
        before ++ ('%' :: body ++ if !rest.isEmpty then ['%'] else []) := by
      have htake : rest.take 1 = if !rest.isEmpty then ['%'] else [] := take_one_eq_sign t
      rw [htake, List.append_assoc]
    rw [hblock] at ih ⊢
    exact pairwise_block (pairwise_ledParts body _) (fun _ => spells_of_mem_ledParts) ih
  | case3 before c t hsign hgap ih => exact ih
  | case4 before c t hsign hgap ih =>
    exact pairwise_block (pairwise_ledCommands _) (fun _ => spells_of_mem_ledCommands) ih

end

/-- Every command of a file has the line of its block, which is the line of its own first character
if and only if the block holds no line break in front of it. -/
theorem lines_of_ofBytes (bytes : List UInt8) :
    ofBytes bytes = (sites [] (ofUtf8 bytes)).map Site.token ∧
      ((sites [] (ofUtf8 bytes)).Pairwise fun a b => a.start < b.start) ∧
      ∀ site ∈ sites [] (ofUtf8 bytes), site.StandsIn (ofUtf8 bytes) ∧
        (site.token.line = site.line ↔ '\n' ∉ site.lead) := by
  refine ⟨scan_eq_sites [] (ofUtf8 bytes), pairwise_sites [] (ofUtf8 bytes),
    fun site hsite => ?_⟩
  have htoken : site.token.line = 1 + site.before.count '\n' := rfl
  refine ⟨standsIn_of_mem_sites hsite, ?_⟩
  rw [htoken, Site.line, List.count_append, ← List.count_eq_zero]
  omega

/-- A block of two commands, a glued code and a command, all on lines of their own. -/
def brokenBlocks : List UInt8 := ascii "%FSLAX24Y24*\nMOMM*%\nG01\nX1Y1D01*".toList

def unitsSite : Site := ⟨[], "%FSLAX24Y24*\n".toList, "%MOMM*%".toList⟩

private theorem unitsSite_mem : unitsSite ∈ sites [] (ofUtf8 brokenBlocks) := by
  decide +kernel

theorem lines_of_ofBytes_brokenBlocks :
    unitsSite ∈ sites [] (ofUtf8 brokenBlocks) ∧
    ofBytes brokenBlocks = (sites [] (ofUtf8 brokenBlocks)).map Site.token ∧
    unitsSite.StandsIn (ofUtf8 brokenBlocks) ∧
    (unitsSite.token.line = unitsSite.line ↔ '\n' ∉ unitsSite.lead) ∧
    unitsSite.token.line = 1 ∧ unitsSite.line = 2 := by
  obtain ⟨hsites, -, hstand⟩ := lines_of_ofBytes brokenBlocks
  obtain ⟨hstands, hline⟩ := hstand unitsSite unitsSite_mem
  exact ⟨unitsSite_mem, hsites, hstands, hline, by decide, by decide⟩

/-- Not every command has the line of its own first character. -/
theorem not_always_ownLine :
    ¬ ∀ bytes : List UInt8, ofBytes bytes =
      (sites [] (ofUtf8 bytes)).map fun site => ⟨site.command, site.line⟩ := by
  intro h
  have hlines := (scan_eq_sites [] (ofUtf8 brokenBlocks)).symm.trans (h brokenBlocks)
  have hunits := List.map_inj_left.mp hlines unitsSite unitsSite_mem
  exact absurd hunits (by decide)

end Gerber.Token
