import Gerber.Expression

/-!
# The grammar of macro expressions

An expression is a sum of terms, a term is a product of factors, and a factor is a number or an
expression in parentheses, with any signs in front of it.  A tree of the grammar writes pieces and
has a value, which is sound if no divisor in the tree is zero.  No two trees write the same pieces.
-/

namespace Gerber.Expression

mutual

/-- An expression: a term, and further terms that are added or subtracted. -/
inductive Tree (α : Type) where
  | sum (first : Term α) (more : Terms α)

/-- The terms of an expression after the first. -/
inductive Terms (α : Type) where
  | nil
  | plus (term : Term α) (more : Terms α)
  | minus (term : Term α) (more : Terms α)

/-- A term: a factor, and further factors that multiply or divide. -/
inductive Term (α : Type) where
  | product (first : Factor α) (more : Factors α)

/-- The factors of a term after the first. -/
inductive Factors (α : Type) where
  | nil
  | times (factor : Factor α) (more : Factors α)
  | per (factor : Factor α) (more : Factors α)

inductive Factor (α : Type) where
  | number (value : α)
  | group (expression : Tree α)
  | positive (factor : Factor α)
  | negative (factor : Factor α)

end

variable {α : Type}

mutual

/-- The pieces that an expression writes, and so for its parts below. -/
def Tree.pieces : Tree α → List (Piece α)
  | .sum first more => first.pieces ++ more.pieces

def Terms.pieces : Terms α → List (Piece α)
  | .nil => []
  | .plus term more => .item (.operation .add) :: (term.pieces ++ more.pieces)
  | .minus term more => .item (.operation .sub) :: (term.pieces ++ more.pieces)

def Term.pieces : Term α → List (Piece α)
  | .product first more => first.pieces ++ more.pieces

def Factors.pieces : Factors α → List (Piece α)
  | .nil => []
  | .times factor more => .item (.operation .mul) :: (factor.pieces ++ more.pieces)
  | .per factor more => .item (.operation .div) :: (factor.pieces ++ more.pieces)

def Factor.pieces : Factor α → List (Piece α)
  | .number value => [.item (.number value)]
  | .group expression => .opening :: (expression.pieces ++ [.closing])
  | .positive factor => .item (.operation .add) :: factor.pieces
  | .negative factor => .item (.operation .sub) :: factor.pieces

end

section

variable [Scalar α]

mutual

/-- The value of an expression: its terms are added up from left to right, starting from zero. -/
def Tree.value : Tree α → α
  | .sum first more => more.addedTo (Scalar.zero + first.value false)

/-- Further terms added to a sum.  Of a term that is subtracted the first factor is negated. -/
def Terms.addedTo : Terms α → α → α
  | .nil, sum => sum
  | .plus term more, sum => more.addedTo (sum + term.value false)
  | .minus term more, sum => more.addedTo (sum + term.value true)

/-- The value of a term whose first factor may be negated: its factors are taken from left to
right. -/
def Term.value : Term α → Bool → α
  | .product first more, negated =>
    more.takenInto (if negated then -first.signed Scalar.one else first.signed Scalar.one)

/-- Further factors taken into a product.  Dividing is multiplying by the reciprocal. -/
def Factors.takenInto : Factors α → α → α
  | .nil, product => product
  | .times factor more, product => more.takenInto (product * factor.signed Scalar.one)
  | .per factor more, product =>
    more.takenInto (product * (Scalar.one / factor.signed Scalar.one))

/-- The value of a factor after signs that make up `sign`. -/
def Factor.signed : Factor α → α → α
  | .number value, sign => sign * value
  | .group expression, sign => sign * expression.value
  | .positive factor, sign => factor.signed sign
  | .negative factor, sign => factor.signed (-sign)

end

def Factor.value (factor : Factor α) : α := factor.signed Scalar.one

mutual

/-- No divisor in an expression is zero. -/
def Tree.NoZeroDivisor : Tree α → Prop
  | .sum first more => first.NoZeroDivisor ∧ more.NoZeroDivisor

def Terms.NoZeroDivisor : Terms α → Prop
  | .nil => True
  | .plus term more => term.NoZeroDivisor ∧ more.NoZeroDivisor
  | .minus term more => term.NoZeroDivisor ∧ more.NoZeroDivisor

def Term.NoZeroDivisor : Term α → Prop
  | .product first more => first.NoZeroDivisor ∧ more.NoZeroDivisor

def Factors.NoZeroDivisor : Factors α → Prop
  | .nil => True
  | .times factor more => factor.NoZeroDivisor ∧ more.NoZeroDivisor
  | .per factor more =>
    factor.NoZeroDivisor ∧ Scalar.isZero factor.value = false ∧ more.NoZeroDivisor

def Factor.NoZeroDivisor : Factor α → Prop
  | .number _ => True
  | .group expression => expression.NoZeroDivisor
  | .positive factor => factor.NoZeroDivisor
  | .negative factor => factor.NoZeroDivisor

end

end

/-- Pieces that do not go on with an operation. -/
def StopsTree (rest : List (Piece α)) : Prop :=
  ∀ op more, rest ≠ .item (.operation op) :: more

/-- Pieces that do not go on with a factor of a term. -/
def StopsTerm (rest : List (Piece α)) : Prop :=
  ∀ more, rest ≠ .item (.operation .mul) :: more ∧ rest ≠ .item (.operation .div) :: more

private theorem stopsTree_closing (rest : List (Piece α)) : StopsTree (.closing :: rest) := nofun

private theorem stopsTree_nil : StopsTree ([] : List (Piece α)) := nofun

private theorem Terms.stopsTerm (terms : Terms α) {rest : List (Piece α)} (h : StopsTree rest) :
    StopsTerm (terms.pieces ++ rest) := by
  intro more
  cases terms with
  | nil => exact ⟨h .mul more, h .div more⟩
  | plus => simp [Terms.pieces]
  | minus => simp [Terms.pieces]

mutual

private theorem Tree.eq_of_pieces : (e e' : Tree α) → (rest rest' : List (Piece α)) →
    StopsTree rest → StopsTree rest' → e.pieces ++ rest = e'.pieces ++ rest' →
      e = e' ∧ rest = rest'
  | .sum first more, .sum first' more', rest, rest', hstop, hstop', h => by
    simp only [Tree.pieces, List.append_assoc] at h
    obtain ⟨rfl, hmore⟩ :=
      first.eq_of_pieces first' _ _ (more.stopsTerm hstop) (more'.stopsTerm hstop') h
    obtain ⟨rfl, rfl⟩ := more.eq_of_pieces more' _ _ hstop hstop' hmore
    exact ⟨rfl, rfl⟩

private theorem Terms.eq_of_pieces : (terms terms' : Terms α) → (rest rest' : List (Piece α)) →
    StopsTree rest → StopsTree rest' → terms.pieces ++ rest = terms'.pieces ++ rest' →
      terms = terms' ∧ rest = rest'
  | .nil, terms', rest, rest', hstop, hstop', h => by
    cases terms' with
    | nil => exact ⟨rfl, h⟩
    | plus => exact absurd h (hstop _ _)
    | minus => exact absurd h (hstop _ _)
  | .plus term more, terms', rest, rest', hstop, hstop', h => by
    cases terms' with
    | nil => exact absurd h.symm (hstop' _ _)
    | plus term' more' =>
      simp only [Terms.pieces, List.cons_append, List.cons.injEq, true_and, List.append_assoc] at h
      obtain ⟨rfl, hmore⟩ :=
        term.eq_of_pieces term' _ _ (more.stopsTerm hstop) (more'.stopsTerm hstop') h
      obtain ⟨rfl, rfl⟩ := more.eq_of_pieces more' _ _ hstop hstop' hmore
      exact ⟨rfl, rfl⟩
    | minus => simp [Terms.pieces] at h
  | .minus term more, terms', rest, rest', hstop, hstop', h => by
    cases terms' with
    | nil => exact absurd h.symm (hstop' _ _)
    | plus => simp [Terms.pieces] at h
    | minus term' more' =>
      simp only [Terms.pieces, List.cons_append, List.cons.injEq, true_and, List.append_assoc] at h
      obtain ⟨rfl, hmore⟩ :=
        term.eq_of_pieces term' _ _ (more.stopsTerm hstop) (more'.stopsTerm hstop') h
      obtain ⟨rfl, rfl⟩ := more.eq_of_pieces more' _ _ hstop hstop' hmore
      exact ⟨rfl, rfl⟩

private theorem Term.eq_of_pieces : (term term' : Term α) → (rest rest' : List (Piece α)) →
    StopsTerm rest → StopsTerm rest' → term.pieces ++ rest = term'.pieces ++ rest' →
      term = term' ∧ rest = rest'
  | .product first more, .product first' more', rest, rest', hstop, hstop', h => by
    simp only [Term.pieces, List.append_assoc] at h
    obtain ⟨rfl, hmore⟩ := first.eq_of_pieces first' _ _ h
    obtain ⟨rfl, rfl⟩ := more.eq_of_pieces more' _ _ hstop hstop' hmore
    exact ⟨rfl, rfl⟩

private theorem Factors.eq_of_pieces : (factors factors' : Factors α) →
    (rest rest' : List (Piece α)) →
    StopsTerm rest → StopsTerm rest' → factors.pieces ++ rest = factors'.pieces ++ rest' →
      factors = factors' ∧ rest = rest'
  | .nil, factors', rest, rest', hstop, hstop', h => by
    cases factors' with
    | nil => exact ⟨rfl, h⟩
    | times => exact absurd h (hstop _).1
    | per => exact absurd h (hstop _).2
  | .times factor more, factors', rest, rest', hstop, hstop', h => by
    cases factors' with
    | nil => exact absurd h.symm (hstop' _).1
    | times factor' more' =>
      simp only [Factors.pieces, List.cons_append, List.cons.injEq, true_and,
        List.append_assoc] at h
      obtain ⟨rfl, hmore⟩ := factor.eq_of_pieces factor' _ _ h
      obtain ⟨rfl, rfl⟩ := more.eq_of_pieces more' _ _ hstop hstop' hmore
      exact ⟨rfl, rfl⟩
    | per => simp [Factors.pieces] at h
  | .per factor more, factors', rest, rest', hstop, hstop', h => by
    cases factors' with
    | nil => exact absurd h.symm (hstop' _).2
    | times => simp [Factors.pieces] at h
    | per factor' more' =>
      simp only [Factors.pieces, List.cons_append, List.cons.injEq, true_and,
        List.append_assoc] at h
      obtain ⟨rfl, hmore⟩ := factor.eq_of_pieces factor' _ _ h
      obtain ⟨rfl, rfl⟩ := more.eq_of_pieces more' _ _ hstop hstop' hmore
      exact ⟨rfl, rfl⟩

private theorem Factor.eq_of_pieces : (factor factor' : Factor α) → (rest rest' : List (Piece α)) →
    factor.pieces ++ rest = factor'.pieces ++ rest' → factor = factor' ∧ rest = rest'
  | .number value, factor', rest, rest', h => by
    cases factor' with
    | number => simpa [Factor.pieces] using h
    | _ => simp [Factor.pieces] at h
  | .group expression, factor', rest, rest', h => by
    cases factor' with
    | group expression' =>
      simp only [Factor.pieces, List.cons_append, List.cons.injEq, true_and,
        List.append_assoc] at h
      obtain ⟨rfl, hmore⟩ := expression.eq_of_pieces expression' _ _ (stopsTree_closing _)
        (stopsTree_closing _) h
      exact ⟨rfl, (List.cons.inj hmore).2⟩
    | _ => simp [Factor.pieces] at h
  | .positive factor, factor', rest, rest', h => by
    cases factor' with
    | positive factor' =>
      obtain ⟨rfl, rfl⟩ := factor.eq_of_pieces factor' rest rest' (List.cons.inj h).2
      exact ⟨rfl, rfl⟩
    | _ => simp [Factor.pieces] at h
  | .negative factor, factor', rest, rest', h => by
    cases factor' with
    | negative factor' =>
      obtain ⟨rfl, rfl⟩ := factor.eq_of_pieces factor' rest rest' (List.cons.inj h).2
      exact ⟨rfl, rfl⟩
    | _ => simp [Factor.pieces] at h

end

/-- No two expressions write the same pieces. -/
theorem Tree.pieces_injective {e e' : Tree α} (h : e.pieces = e'.pieces) : e = e' :=
  (e.eq_of_pieces e' [] [] stopsTree_nil stopsTree_nil (by rw [h])).1

end Gerber.Expression
