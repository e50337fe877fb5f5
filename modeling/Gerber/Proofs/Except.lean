/-!
# Results

A result is a value or an error.  What is computed from a result is taken apart here into what the
result is, without unfolding how results are passed on.
-/

namespace Gerber.Except

variable {β γ δ σ ε ε' : Type}

@[simp] theorem map_ok (b : β) (f : β → γ) : (Except.ok b : Except ε β).map f = .ok (f b) := rfl

@[simp] theorem map_error (e : ε) (f : β → γ) : (Except.error e : Except ε β).map f = .error e :=
  rfl

theorem map_eq_ok {result : Except ε β} {f : β → γ} {c : γ} :
    result.map f = .ok c ↔ ∃ b, result = .ok b ∧ f b = c := by
  cases result <;> simp

theorem map_eq_error {result : Except ε β} {f : β → γ} {e : ε} :
    result.map f = .error e ↔ result = .error e := by
  cases result <;> simp

theorem mapError_ok (f : ε → ε') (b : β) : (Except.ok b : Except ε β).mapError f = .ok b := rfl

theorem mapError_error (f : ε → ε') (e : ε) :
    (Except.error e : Except ε β).mapError f = .error (f e) :=
  rfl

theorem mapError_eq_ok {result : Except ε β} {f : ε → ε'} {b : β} :
    result.mapError f = .ok b ↔ result = .ok b := by
  cases result <;> simp [mapError_ok, mapError_error]

theorem mapError_eq_error {result : Except ε β} {f : ε → ε'} {e' : ε'} :
    result.mapError f = .error e' ↔ ∃ e, result = .error e ∧ f e = e' := by
  cases result <;> simp [mapError_ok, mapError_error]

theorem bind_eq_ok {result : Except ε β} {f : β → Except ε γ} {c : γ} :
    (result >>= f) = .ok c ↔ ∃ b, result = .ok b ∧ f b = .ok c := by
  cases result <;> simp [bind, Except.bind]

theorem map_map (result : Except ε β) (f : β → γ) (g : γ → δ) :
    (result.map f).map g = result.map fun b => g (f b) := by
  cases result <;> rfl

theorem map_mapError (result : Except ε β) (f : β → γ) (g : ε → ε') :
    (result.map f).mapError g = (result.mapError g).map f := by
  cases result <;> rfl

theorem map_bind (result : Except ε β) (f : β → Except ε γ) (g : γ → δ) :
    (result >>= f).map g = result >>= fun b => (f b).map g := by
  cases result <;> rfl

theorem bind_map (result : Except ε β) (f : β → γ) (g : γ → Except ε δ) :
    result.map f >>= g = result >>= fun b => g (f b) := by
  cases result <;> rfl

/-- A fold fails at the first item that fails. -/
theorem foldlM_eq_error_iff {f : σ → β → Except ε σ} {items : List β} {s : σ} {e : ε} :
    items.foldlM f s = .error e ↔
      ∃ front item back t, items = front ++ item :: back ∧ front.foldlM f s = .ok t ∧
        f t item = .error e := by
  constructor
  · intro h
    induction items generalizing s with
    | nil => cases h
    | cons item rest ih =>
      rw [List.foldlM_cons] at h
      cases hitem : f s item with
      | error why =>
        rw [hitem] at h
        cases h
        exact ⟨[], item, rest, s, rfl, rfl, hitem⟩
      | ok u =>
        rw [hitem] at h
        obtain ⟨front, last, back, t, rfl, hfront, hlast⟩ := ih h
        refine ⟨item :: front, last, back, t, rfl, ?_, hlast⟩
        rw [List.foldlM_cons, hitem]
        exact hfront
  · rintro ⟨front, item, back, t, rfl, hfront, hitem⟩
    rw [List.foldlM_append, hfront]
    change (f t item >>= fun u => back.foldlM f u) = _
    rw [hitem]
    rfl

end Gerber.Except
