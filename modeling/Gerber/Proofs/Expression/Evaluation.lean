import Gerber.Proofs.Expression.Grammar
import Gerber.Proofs.Expression.Spelling
import Gerber.Proofs.Expression.Splicing
import Gerber.Proofs.Scaling.Rational

/-!
# Evaluation follows the grammar

An expression has a value just if a tree of the grammar without a zero divisor writes its pieces,
and the value is that of the tree.  Both directions go through the operands of a group: the
operands of a tree add up to its value, and items with operands are spelled by a tree.
-/

namespace Gerber.Expression

variable {α : Type} [Scalar α]

def Factors.operands : Factors α → List (Operation × α)
  | .nil => []
  | .times factor more => (.mul, factor.value) :: more.operands
  | .per factor more => (.div, factor.value) :: more.operands

def Term.operands (op : Operation) : Term α → List (Operation × α)
  | .product first more => (op, first.value) :: more.operands

def Terms.operands : Terms α → List (Operation × α)
  | .nil => []
  | .plus term more => term.operands .add ++ more.operands
  | .minus term more => term.operands .sub ++ more.operands

def Tree.operands : Tree α → List (Operation × α)
  | .sum first more => first.operands .add ++ more.operands

private theorem Factors.foldl_operands : (factors : Factors α) → (sum product : α) →
    factors.operands.foldl apply (sum, product) = (sum, factors.takenInto product)
  | .nil, _, _ => rfl
  | .times _ more, sum, _ => more.foldl_operands sum _
  | .per _ more, sum, _ => more.foldl_operands sum _

private theorem Term.foldl_operands (term : Term α) (sum product : α) :
    (term.operands .add).foldl apply (sum, product) = (sum + product, term.value false) ∧
      (term.operands .sub).foldl apply (sum, product) = (sum + product, term.value true) := by
  obtain ⟨first, factors⟩ := term
  exact ⟨factors.foldl_operands _ _, factors.foldl_operands _ _⟩

private theorem Terms.foldl_operands : (terms : Terms α) → (sum product : α) →
    (terms.operands.foldl apply (sum, product)).1 + (terms.operands.foldl apply (sum, product)).2 =
      terms.addedTo (sum + product)
  | .nil, _, _ => rfl
  | .plus term more, sum, product => by
    simp only [Terms.operands, List.foldl_append, (term.foldl_operands _ _).1]
    exact more.foldl_operands _ _
  | .minus term more, sum, product => by
    simp only [Terms.operands, List.foldl_append, (term.foldl_operands _ _).2]
    exact more.foldl_operands _ _

private theorem Tree.total_operands (tree : Tree α) : total tree.operands = tree.value := by
  obtain ⟨⟨first, factors⟩, more⟩ := tree
  simp only [Tree.operands, Term.operands, List.cons_append, total, List.foldl_append,
    Factors.foldl_operands]
  exact more.foldl_operands _ _

/-- The operands that items bring which follow an operand. -/
def continued (expression : Text) : List (Item α) → Except ExpressionFault (List (Operation × α))
  | [] => .ok []
  | .operation next :: t => operands expression next Scalar.one t
  | .number _ :: _ => .error (.missingOperator expression)

private theorem operands_number (expression : Text) (op : Operation) (sign value : α)
    (t : List (Item α)) :
    operands expression op sign (.number value :: t) =
      if op = .div ∧ Scalar.isZero (sign * value) then .error (.divisionByZero expression)
      else (continued expression t).map ((op, sign * value) :: ·) := by
  rcases t with _ | ⟨_ | next, t⟩ <;> simp only [operands, continued] <;> rfl

private theorem operands_number_of_ne_zero {expression : Text} {op : Operation} {sign value : α}
    {t : List (Item α)} {more : List (Operation × α)}
    (hzero : op = .div → Scalar.isZero (sign * value) = false)
    (hmore : continued expression t = .ok more) :
    operands expression op sign (.number value :: t) = .ok ((op, sign * value) :: more) := by
  rw [operands_number, if_neg, hmore]
  · rfl
  · rintro ⟨hop, h⟩
    rw [hzero hop] at h
    cases h

private theorem operands_number_eq_ok {expression : Text} {op : Operation} {sign value : α}
    {t : List (Item α)} {all : List (Operation × α)}
    (h : operands expression op sign (.number value :: t) = .ok all) :
    (op = .div → Scalar.isZero (sign * value) = false) ∧
      ∃ more, continued expression t = .ok more ∧ all = (op, sign * value) :: more := by
  rw [operands_number] at h
  split at h
  · cases h
  · rename_i hzero
    cases hmore : continued expression t with
    | error e => rw [hmore] at h; cases h
    | ok more =>
      rw [hmore] at h
      cases h
      exact ⟨fun hop => by simpa [hop] using hzero, more, rfl, rfl⟩

private theorem groupValue_eq_ok_iff {expression : Text} {items : List (Item α)} {value : α} :
    groupValue expression items = .ok value ↔
      ∃ all, operands expression .add Scalar.one items = .ok all ∧ total all = value := by
  rw [groupValue]
  cases operands expression .add Scalar.one items with
  | error e => simp [Except.map]
  | ok all => simp [Except.map]

/-- The pieces after an operand are further factors and then further terms, with these operands. -/
def GoesOn (parts : List (Piece α)) (all : List (Operation × α)) : Prop :=
  ∃ (factors : Factors α) (terms : Terms α), parts = factors.pieces ++ terms.pieces ∧
    factors.NoZeroDivisor ∧ terms.NoZeroDivisor ∧ all = factors.operands ++ terms.operands

/-- The pieces after `op` and the signs that make up `sign` are a factor and what can follow it,
with these operands. -/
def Starts (op : Operation) (sign : α) (parts : List (Piece α)) (all : List (Operation × α)) :
    Prop :=
  ∃ (factor : Factor α) (rest : List (Piece α)) (more : List (Operation × α)),
    parts = factor.pieces ++ rest ∧ factor.NoZeroDivisor ∧
    (op = .div → Scalar.isZero (factor.signed sign) = false) ∧
    GoesOn rest more ∧ all = (op, factor.signed sign) :: more

private theorem goesOn_nil : GoesOn ([] : List (Piece α)) [] :=
  ⟨.nil, .nil, rfl, trivial, trivial, rfl⟩

private theorem Starts.goesOn {op : Operation} {parts : List (Piece α)} {all : List (Operation × α)}
    (h : Starts op Scalar.one parts all) : GoesOn (.item (.operation op) :: parts) all := by
  obtain ⟨factor, rest, more, rfl, hfactor, hzero, ⟨factors, terms, rfl, hfactors, hterms, rfl⟩,
    rfl⟩ := h
  cases op with
  | add =>
    exact ⟨.nil, .plus (.product factor factors) terms, by simp [Factors.pieces, Terms.pieces,
      Term.pieces], trivial, ⟨⟨hfactor, hfactors⟩, hterms⟩, rfl⟩
  | sub =>
    exact ⟨.nil, .minus (.product factor factors) terms, by simp [Factors.pieces, Terms.pieces,
      Term.pieces], trivial, ⟨⟨hfactor, hfactors⟩, hterms⟩, rfl⟩
  | mul =>
    exact ⟨.times factor factors, terms, by simp [Factors.pieces], ⟨hfactor, hfactors⟩, hterms,
      rfl⟩
  | div =>
    exact ⟨.per factor factors, terms, by simp [Factors.pieces],
      ⟨hfactor, hzero rfl, hfactors⟩, hterms, rfl⟩

theorem Starts.negative {op : Operation} {sign : α} {parts : List (Piece α)}
    {all : List (Operation × α)} (h : Starts op (-sign) parts all) :
    Starts op sign (.item (.operation .sub) :: parts) all := by
  obtain ⟨factor, rest, more, rfl, h⟩ := h
  exact ⟨.negative factor, rest, more, rfl, h⟩

theorem Starts.positive {op : Operation} {sign : α} {parts : List (Piece α)}
    {all : List (Operation × α)} (h : Starts op sign parts all) :
    Starts op sign (.item (.operation .add) :: parts) all := by
  obtain ⟨factor, rest, more, rfl, h⟩ := h
  exact ⟨.positive factor, rest, more, rfl, h⟩

private theorem Starts.exists_tree {parts : List (Piece α)} {all : List (Operation × α)}
    (h : Starts .add Scalar.one parts all) :
    ∃ tree : Tree α, tree.pieces = parts ∧ tree.NoZeroDivisor ∧ tree.operands = all := by
  obtain ⟨factor, _, _, rfl, hfactor, -, ⟨factors, terms, rfl, hfactors, hterms, rfl⟩, rfl⟩ := h
  exact ⟨.sum (.product factor factors) terms, by simp [Tree.pieces, Term.pieces],
    ⟨⟨hfactor, hfactors⟩, hterms⟩, rfl⟩

/-- Items with operands are spelled by pieces of the grammar, where an operand is expected and where
an operation is. -/
private theorem Spells.starts_and_goesOn {expression : Text} {items : List (Item α)}
    {parts : List (Piece α)} (h : Spells expression items parts) :
    (∀ op sign all, operands expression op sign items = .ok all → Starts op sign parts all) ∧
      ∀ all, continued expression items = .ok all → GoesOn parts all := by
  induction h with
  | nil =>
    constructor
    · intro op sign all hall
      cases hall
    · intro all hall
      cases hall
      exact goesOn_nil
  | item i _ ih =>
    cases i with
    | number value =>
      refine ⟨fun op sign all hall => ?_, nofun⟩
      obtain ⟨hzero, more, hmore, rfl⟩ := operands_number_eq_ok hall
      exact ⟨.number value, _, more, rfl, trivial, hzero, ih.2 more hmore, rfl⟩
    | operation op' =>
      refine ⟨fun op sign all hall => ?_, fun all hall => (ih.1 op' _ all hall).goesOn⟩
      cases op' with
      | add => exact (ih.1 op sign all hall).positive
      | sub => exact (ih.1 op _ all hall).negative
      | mul => cases hall
      | div => cases hall
  | group enclosed evaluated rest ihinside ih =>
    -- `ihinside` gives the tree in parentheses, and `ih` what follows it
    refine ⟨fun op sign all hall => ?_, nofun⟩
    obtain ⟨hzero, more, hmore, rfl⟩ := operands_number_eq_ok hall
    obtain ⟨inner, hinner, rfl⟩ := groupValue_eq_ok_iff.1 evaluated
    obtain ⟨tree, rfl, htree, rfl⟩ := (ihinside.1 _ _ _ hinner).exists_tree
    rw [tree.total_operands] at hzero ⊢
    exact ⟨.group tree, _, more, by simp [Factor.pieces], htree, hzero, ih.2 more hmore, rfl⟩

mutual

private theorem Tree.exists_spells (expression : Text) : (tree : Tree α) → tree.NoZeroDivisor →
    ∃ items, Spells expression items tree.pieces ∧
      groupValue expression items = .ok tree.value
  | .sum first more, h => by
    obtain ⟨items, hitems, hfirst⟩ := first.exists_spells expression h.1
    obtain ⟨others, hothers, hmore⟩ := more.exists_spells expression h.2
    refine ⟨items ++ others, hitems.append hothers, ?_⟩
    rw [groupValue_eq_ok_iff]
    exact ⟨_, hfirst .add others _ nofun hmore, Tree.total_operands (.sum first more)⟩

private theorem Terms.exists_spells (expression : Text) : (terms : Terms α) → terms.NoZeroDivisor →
    ∃ items, Spells expression items terms.pieces ∧
      continued expression items = .ok terms.operands
  | .nil, _ => ⟨[], .nil, rfl⟩
  | .plus term more, h => by
    obtain ⟨items, hitems, hterm⟩ := term.exists_spells expression h.1
    obtain ⟨others, hothers, hmore⟩ := more.exists_spells expression h.2
    exact ⟨_, .item _ (hitems.append hothers), hterm .add others _ nofun hmore⟩
  | .minus term more, h => by
    obtain ⟨items, hitems, hterm⟩ := term.exists_spells expression h.1
    obtain ⟨others, hothers, hmore⟩ := more.exists_spells expression h.2
    exact ⟨_, .item _ (hitems.append hothers), hterm .sub others _ nofun hmore⟩

private theorem Term.exists_spells (expression : Text) : (term : Term α) → term.NoZeroDivisor →
    ∃ items, Spells expression items term.pieces ∧
      ∀ op rest more, op ≠ .div → continued expression rest = .ok more →
        operands expression op Scalar.one (items ++ rest) = .ok (term.operands op ++ more)
  | .product first factors, h => by
    obtain ⟨items, hitems, hfirst⟩ := first.exists_spells expression h.1
    obtain ⟨others, hothers, hfactors⟩ := factors.exists_spells expression h.2
    refine ⟨items ++ others, hitems.append hothers, fun op rest more hop hmore => ?_⟩
    rw [List.append_assoc]
    exact hfirst op _ _ _ (fun hdiv => absurd hdiv hop) (hfactors rest more hmore)

private theorem Factors.exists_spells (expression : Text) : (factors : Factors α) →
    factors.NoZeroDivisor →
    ∃ items, Spells expression items factors.pieces ∧
      ∀ rest more, continued expression rest = .ok more →
        continued expression (items ++ rest) = .ok (factors.operands ++ more)
  | .nil, _ => ⟨[], .nil, fun _ _ hmore => hmore⟩
  | .times factor factors, h => by
    obtain ⟨items, hitems, hfactor⟩ := factor.exists_spells expression h.1
    obtain ⟨others, hothers, hfactors⟩ := factors.exists_spells expression h.2
    refine ⟨_, .item _ (hitems.append hothers), fun rest more hmore => ?_⟩
    rw [List.cons_append, List.append_assoc]
    exact hfactor .mul _ _ _ nofun (hfactors rest more hmore)
  | .per factor factors, h => by
    obtain ⟨items, hitems, hfactor⟩ := factor.exists_spells expression h.1
    obtain ⟨others, hothers, hfactors⟩ := factors.exists_spells expression h.2.2
    refine ⟨_, .item _ (hitems.append hothers), fun rest more hmore => ?_⟩
    rw [List.cons_append, List.append_assoc]
    exact hfactor .div _ _ _ (fun _ => h.2.1) (hfactors rest more hmore)

private theorem Factor.exists_spells (expression : Text) : (factor : Factor α) →
    factor.NoZeroDivisor → ∃ items, Spells expression items factor.pieces ∧
      ∀ op sign rest more, (op = .div → Scalar.isZero (factor.signed sign) = false) →
        continued expression rest = .ok more →
        operands expression op sign (items ++ rest) = .ok ((op, factor.signed sign) :: more)
  | .number value, _ =>
    ⟨_, .item _ .nil, fun _ _ _ _ hzero hmore => operands_number_of_ne_zero hzero hmore⟩
  | .group tree, h => by
    obtain ⟨items, hitems, hvalue⟩ := tree.exists_spells expression h
    exact ⟨_, hitems.parenthesized hvalue,
      fun _ _ _ _ hzero hmore => operands_number_of_ne_zero hzero hmore⟩
  | .positive factor, h => by
    obtain ⟨items, hitems, hfactor⟩ := factor.exists_spells expression h
    exact ⟨_, .item _ hitems, fun op sign => hfactor op sign⟩
  | .negative factor, h => by
    obtain ⟨items, hitems, hfactor⟩ := factor.exists_spells expression h
    exact ⟨_, .item _ hitems, fun op sign => hfactor op (-sign)⟩

end

/-- What can be wrong with an expression whose pieces can be read. -/
def refusals (expression : Text) : List ExpressionFault :=
  [.unbalanced expression, .missingOperand expression, .missingOperator expression,
    .divisionByZero expression]

private theorem operands_error {expression : Text} {op : Operation} {sign : α}
    {items : List (Item α)}
    {e : ExpressionFault} (h : operands expression op sign items = .error e) :
    e ∈ refusals expression := by
  fun_induction operands expression op sign items with
  | case1 => cases h; simp [refusals]
  | case2 _ _ _ ih => exact ih h
  | case3 _ _ _ ih => exact ih h
  | case4 => cases h; simp [refusals]
  | case5 => cases h; simp [refusals]
  | case6 => cases h; simp [refusals]
  | case7 => cases h
  | case8 op sign value _ next t ih =>
    cases hmore : operands expression next Scalar.one t with
    | error e' =>
      rw [hmore] at h
      cases h
      exact ih hmore
    | ok more => rw [hmore] at h; cases h
  | case9 => cases h; simp [refusals]

private theorem groupValue_error {expression : Text} {items : List (Item α)} {e : ExpressionFault}
    (h : groupValue expression items = .error e) : e ∈ refusals expression := by
  rw [groupValue] at h
  cases hall : operands expression .add Scalar.one items with
  | error e' =>
    rw [hall] at h
    cases h
    exact operands_error hall
  | ok all => rw [hall] at h; cases h

private theorem collapse_error {expression : Text} {group : List (Item α)}
    {outer : List (List (Item α))} {parts : List (Piece α)} {e : ExpressionFault}
    (h : collapse expression group outer parts = .error e) : e ∈ refusals expression := by
  fun_induction collapse expression group outer parts with
  | case1 => cases h
  | case2 => cases h; exact List.mem_cons_self
  | case3 _ _ _ _ ih => exact ih h
  | case4 _ _ _ ih => exact ih h
  | case5 => cases h; exact List.mem_cons_self
  | case6 _ _ _ _ _ _ ih => exact ih h
  | case7 _ _ _ _ _ hgroup => cases h; exact groupValue_error hgroup

/-- An expression whose pieces can be read has a value just if a tree of the grammar without a zero
divisor writes the pieces; the tree is the only one that writes them, and the value is its value.
Otherwise the expression is refused.  Splicing the innermost groups until a number is left comes to
the same. -/
theorem evaluate_follows_grammar {bindings : Bindings α} {expression : Text}
    {parts : List (Piece α)} (h : pieces expression bindings expression = .ok parts) :
    (∀ value, evaluate bindings expression = .ok value ↔
      ∃ tree : Tree α, tree.pieces = parts ∧ tree.NoZeroDivisor ∧ tree.value = value) ∧
    (∀ tree tree' : Tree α, tree.pieces = parts → tree'.pieces = parts → tree = tree') ∧
    ((¬∃ tree : Tree α, tree.pieces = parts ∧ tree.NoZeroDivisor) →
      ∃ e ∈ refusals expression, evaluate bindings expression = .error e) ∧
    evaluate bindings expression = settle expression (.opening :: (parts ++ [.closing])) := by
  have heval : evaluate bindings expression =
      collapse expression [] [[]] (parts ++ [.closing]) := by rw [evaluate, h]
  have hiff : ∀ value, evaluate bindings expression = .ok value ↔
      ∃ tree : Tree α, tree.pieces = parts ∧ tree.NoZeroDivisor ∧ tree.value = value := by
    intro value
    rw [heval, collapse_enclosed_eq_ok_iff]
    constructor
    · rintro ⟨items, hspells, hvalue⟩
      obtain ⟨all, hall, rfl⟩ := groupValue_eq_ok_iff.1 hvalue
      obtain ⟨tree, htree, hzero, rfl⟩ := (hspells.starts_and_goesOn.1 _ _ _ hall).exists_tree
      exact ⟨tree, htree, hzero, tree.total_operands.symm⟩
    · rintro ⟨tree, rfl, hzero, rfl⟩
      exact tree.exists_spells expression hzero
  refine ⟨hiff, fun tree tree' htree htree' => Tree.pieces_injective (htree.trans htree'.symm),
    fun hnone => ?_, heval.trans (collapse_eq_settle_enclosed _ _)⟩
  cases hvalue : evaluate bindings expression with
  | ok value =>
    obtain ⟨tree, htree, hzero, -⟩ := (hiff value).1 hvalue
    exact absurd ⟨tree, htree, hzero⟩ hnone
  | error e => exact ⟨e, collapse_error (heval.symm.trans hvalue), rfl⟩

/-- The tree of an expression with signs, a group, a variable that is three, and a quotient. -/
def signedQuotient : Tree ℚ :=
  .sum
    (.product
      (.negative (.group (.sum (.product (.number 1) .nil)
        (.plus (.product (.number 3) .nil) .nil))))
      (.times (.number 2) (.per (.number 4) .nil)))
    (.minus (.product (.negative (.number 3)) .nil) .nil)

theorem evaluate_follows_grammar_signedQuotient :
    pieces "-(1+$1)x2/4--3".toList (.ofParameters [3]) "-(1+$1)x2/4--3".toList =
      .ok signedQuotient.pieces ∧
    evaluate (.ofParameters [(3 : ℚ)]) "-(1+$1)x2/4--3".toList = .ok 1 := by
  obtain ⟨hpieces, hvalue, hfour⟩ :
      pieces "-(1+$1)x2/4--3".toList (.ofParameters [3]) "-(1+$1)x2/4--3".toList =
        .ok signedQuotient.pieces ∧
      signedQuotient.value = 1 ∧ Scalar.isZero (Factor.number (4 : ℚ)).value = false := by
    decide +kernel
  have hzero : signedQuotient.NoZeroDivisor := by
    simp [signedQuotient, Tree.NoZeroDivisor, Terms.NoZeroDivisor, Term.NoZeroDivisor,
      Factors.NoZeroDivisor, Factor.NoZeroDivisor, hfour]
  exact ⟨hpieces,
    ((evaluate_follows_grammar hpieces).1 1).2 ⟨signedQuotient, rfl, hzero, hvalue⟩⟩

/-- A parenthesis that closes too early is not made up for by one that is left open. -/
example : evaluate (.ofParameters [(3 : ℚ)]) "1)+(2".toList =
    .error (.unbalanced "1)+(2".toList) := by decide +kernel

end Gerber.Expression
