import Mathlib.Data.List.Basic
import Mathlib.Data.List.Induction

/-!
# First occurrences

`List.eraseDups` keeps the first occurrence of each member of a list.  These are its laws for
a list that grows at its end: an alphabet, the keys of a map, or the sets that a search has
discovered.

**Results.** `eraseDups_concat` says what one more member does, `nodup_eraseDups` and
`eraseDups_of_nodup` that the results are the lists without repetitions,
`eraseDups_eraseDups_append` that repetitions may be dropped early, and
`pairwise_idxOf_eraseDups` that the members stand in the order of their first places.
-/

namespace Determinization

universe u

variable {α : Type u} [BEq α] [LawfulBEq α]

/-- A further member is kept if and only if it is new. -/
theorem eraseDups_concat
    (xs : List α)
    (x : α) [Decidable (x ∈ xs)] :
    (xs ++ [x]).eraseDups
      =
    if x ∈ xs then xs.eraseDups else xs.eraseDups ++ [x] := by
  rw [List.eraseDups_append]
  split <;> simp_all [List.removeAll, List.eraseDups_cons]

theorem nodup_eraseDups
    (xs : List α) :
    xs.eraseDups.Nodup := by
  classical
  induction xs using List.reverseRecOn with
  | nil => simp
  | append_singleton xs x ih =>
      rw [eraseDups_concat]
      split
      · exact ih
      · next hx =>
          refine List.nodup_append.mpr ⟨ih, by simp, ?_⟩
          intro y hy z hz hyz
          rw [List.mem_singleton.mp hz] at hyz
          exact hx (List.mem_eraseDups.mp (hyz ▸ hy))

theorem eraseDups_of_nodup
    {xs : List α}
    (h : xs.Nodup) :
    xs.eraseDups = xs := by
  classical
  induction xs using List.reverseRecOn with
  | nil => simp
  | append_singleton xs x ih =>
      have hx : x ∉ xs := fun hmem =>
        (List.nodup_append.mp h).2.2 x hmem x (by simp) rfl
      rw [eraseDups_concat, if_neg hx, ih (List.nodup_append.mp h).1]

/-- What a list adds to another depends only on the members of the other. -/
theorem eraseDups_eraseDups_append
    (xs ys : List α) :
    (xs.eraseDups ++ ys).eraseDups = (xs ++ ys).eraseDups := by
  have hnew : ys.removeAll xs.eraseDups = ys.removeAll xs := by
    refine List.filter_congr ?_
    intro y _
    simp
  rw [List.eraseDups_append, List.eraseDups_append, hnew,
    eraseDups_of_nodup (nodup_eraseDups xs)]

/-- The first occurrences stand in the order of their places. -/
theorem pairwise_idxOf_eraseDups
    (xs : List α) :
    xs.eraseDups.Pairwise fun x y => xs.idxOf x < xs.idxOf y := by
  classical
  induction xs using List.reverseRecOn with
  | nil => simp
  | append_singleton xs x ih =>
      -- The places of earlier members stay as they are.
      have hkeep : xs.eraseDups.Pairwise fun y z => (xs ++ [x]).idxOf y < (xs ++ [x]).idxOf z := by
        refine ih.imp_of_mem ?_
        intro y z hy hz hyz
        rw [List.idxOf_append_of_mem (List.mem_eraseDups.mp hy),
          List.idxOf_append_of_mem (List.mem_eraseDups.mp hz)]
        exact hyz
      rw [eraseDups_concat]
      split
      · exact hkeep
      · next hx =>
          refine List.pairwise_append.mpr ⟨hkeep, List.pairwise_singleton _ x, ?_⟩
          intro y hy z hz
          have hyxs : y ∈ xs := List.mem_eraseDups.mp hy
          rw [List.mem_singleton.mp hz, List.idxOf_append_of_mem hyxs,
            List.idxOf_append_of_notMem hx]
          have hplace : xs.idxOf y < xs.length := List.idxOf_lt_length_of_mem hyxs
          omega

end Determinization
