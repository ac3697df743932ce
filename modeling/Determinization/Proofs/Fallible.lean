import Mathlib.Data.List.Forall2

/-!
# Steps that can fail

A step returns a value or a fault, and a sequence of steps stops at the first fault.

**Results.** `bind_eq_ok_iff` and `bind_eq_error_iff`: a sequence of two steps succeeds if both do,
and fails with the first fault.  `map_eq_ok_iff` and `map_eq_error_iff`: passing the result on cannot
fail.  `mapM_eq_ok_iff` and `exists_mapM_eq_ok_iff`: a step on every
member of a list succeeds if it succeeds on each member.
-/

namespace Determinization

universe u v

variable {ε : Type u} {α β : Type v}

/-- A sequence of two steps succeeds if both do. -/
theorem bind_eq_ok_iff
    {x : Except ε α}
    {f : α → Except ε β}
    {b : β} :
    x >>= f = .ok b ↔ ∃ a, x = .ok a ∧ f a = .ok b := by
  cases x <;> simp [bind, Except.bind]

/-- A sequence of two steps fails if the first does, or the second after it. -/
theorem bind_eq_error_iff
    {x : Except ε α}
    {f : α → Except ε β}
    {e : ε} :
    x >>= f = .error e ↔ x = .error e ∨ ∃ a, x = .ok a ∧ f a = .error e := by
  cases x <;> simp [bind, Except.bind]

/-- A result that is passed through a function is there if the result is. -/
theorem map_eq_ok_iff
    {x : Except ε α}
    {f : α → β}
    {b : β} :
    x.map f = .ok b ↔ ∃ a, x = .ok a ∧ f a = b := by
  cases x <;> simp [Except.map]

theorem map_eq_error_iff
    {x : Except ε α}
    {f : α → β}
    {e : ε} :
    x.map f = .error e ↔ x = .error e := by
  cases x <;> simp [Except.map]

/-- A step on every member of a list succeeds if each of the steps does. -/
theorem mapM_eq_ok_iff
    {f : α → Except ε β}
    {xs : List α}
    {ys : List β} :
    xs.mapM f = .ok ys ↔ List.Forall₂ (fun x y => f x = .ok y) xs ys := by
  induction xs generalizing ys with
  | nil => simp [pure, Except.pure, eq_comm]
  | cons x xs ih =>
      rw [List.mapM_cons, bind_eq_ok_iff, List.forall₂_cons_left_iff]
      simp only [bind_eq_ok_iff, ih]
      constructor
      · rintro ⟨y, hy, rest, hrest, hys⟩
        exact ⟨y, rest, hy, hrest, (Except.ok.inj hys).symm⟩
      · rintro ⟨y, rest, hy, hrest, rfl⟩
        exact ⟨y, hy, rest, hrest, rfl⟩

/-- The results of a successful step on every member are the results on the members. -/
theorem mem_of_mapM_eq_ok
    {f : α → Except ε β}
    {xs : List α}
    {ys : List β}
    (h : xs.mapM f = .ok ys)
    {y : β} :
    y ∈ ys ↔ ∃ x ∈ xs, f x = .ok y := by
  have hall := mapM_eq_ok_iff.mp h
  clear h
  induction hall with
  | nil => simp
  | @cons x z xs ys hx _ ih =>
      have hhead : y = z ↔ f x = .ok y := by
        rw [hx, Except.ok.injEq, eq_comm]
      simp [ih, hhead]

/-- A step on every member of a list succeeds if it succeeds on each of them. -/
theorem exists_mapM_eq_ok_iff
    {f : α → Except ε β}
    {xs : List α} :
    (∃ ys, xs.mapM f = .ok ys) ↔ ∀ x ∈ xs, ∃ y, f x = .ok y := by
  induction xs with
  | nil => simp [pure, Except.pure]
  | cons x xs ih =>
      simp only [List.mapM_cons, bind_eq_ok_iff, List.forall_mem_cons, ← ih]
      constructor
      · rintro ⟨_, y, hy, ys, hys, -⟩
        exact ⟨⟨y, hy⟩, ys, hys⟩
      · rintro ⟨⟨y, hy⟩, ys, hys⟩
        exact ⟨y :: ys, y, hy, ys, hys, rfl⟩

/-- A step whose result is always passed on succeeds if the step does. -/
theorem exists_bind_pure_eq_ok_iff
    {x : Except ε α}
    {g : α → β} :
    (∃ b, (x >>= fun a => pure (g a)) = .ok b) ↔ ∃ a, x = .ok a := by
  cases x <;> simp [bind, Except.bind, pure, Except.pure]

end Determinization
