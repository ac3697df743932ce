import Mathlib.Data.List.Perm.Basic
import Determinization.NFA

/-!
# Sorted listings

The members of a set, and the sources of a transition map, can be listed in any order.  Sorting makes
one list of all these listings, so that nothing that is shown of it depends on the order.

**Results.** `ascending_eq_iff`: lists are sorted alike if and only if they are permutations of each
other.  `ascending_of_listing` and `NFA.sources_of_listing`: a listing of a set is sorted into its
list of members, and a listing of the sources of an automaton into `NFA.sources`.
-/

namespace Determinization

variable {states others : List Int}

theorem ascending_perm
    (states : List Int) :
    (ascending states).Perm states :=
  List.mergeSort_perm states _

theorem pairwise_ascending
    (states : List Int) :
    (ascending states).Pairwise (· ≤ ·) := by
  have hsorted : (ascending states).Pairwise fun p q => decide (p ≤ q) = true := by
    refine List.pairwise_mergeSort ?_ ?_ states
    · intro p q r hpq hqr
      exact decide_eq_true (Int.le_trans (of_decide_eq_true hpq) (of_decide_eq_true hqr))
    · intro p q
      simpa using Int.le_total p q
  exact hsorted.imp of_decide_eq_true

/-- Two lists are sorted alike if and only if one is a permutation of the other. -/
theorem ascending_eq_iff :
    ascending states = ascending others ↔ states.Perm others := by
  constructor
  · intro h
    exact (ascending_perm states).symm.trans (h ▸ ascending_perm others)
  · intro h
    have hperm : (ascending states).Perm (ascending others) :=
      (ascending_perm states).trans (h.trans (ascending_perm others).symm)
    exact hperm.eq_of_pairwise (fun _ _ _ _ => Int.le_antisymm)
      (pairwise_ascending states) (pairwise_ascending others)

/-- A list without repetitions is sorted into the strictly ascending list with the same members. -/
theorem ascending_eq_of_pairwise_lt
    (hothers : others.Pairwise (· < ·))
    (hnodup : states.Nodup)
    (hmem : ∀ q, q ∈ states ↔ q ∈ others) :
    ascending states = others := by
  have hperm : (ascending states).Perm others := by
    refine (ascending_perm states).trans ?_
    exact (List.perm_ext_iff_of_nodup hnodup (hothers.imp Int.ne_of_lt)).mpr hmem
  exact hperm.eq_of_pairwise (fun _ _ _ _ => Int.le_antisymm)
    (pairwise_ascending states) (hothers.imp Int.le_of_lt)

/-- A listing of a set without repetitions is sorted into its list of members. -/
theorem ascending_of_listing
    {s : StateSet}
    (hnodup : states.Nodup)
    (hmem : ∀ q, q ∈ states ↔ q ∈ s) :
    ascending states = s.toList := by
  refine ascending_eq_of_pairwise_lt (StateSet.pairwise_lt_toList s) hnodup fun q => ?_
  rw [hmem, Std.ExtTreeSet.mem_toList]

namespace NFA

variable {N : NFA}

/-- A listing of the sources without repetitions is sorted into the keys of the transition map. -/
theorem ascending_eq_keys
    (hnodup : states.Nodup)
    (hmem : ∀ q, q ∈ states ↔ q ∈ N.transitions) :
    ascending states = N.transitions.keys := by
  have hkeys : N.transitions.keys.Pairwise (· < ·) :=
    Std.ExtTreeMap.ordered_keys.imp Std.compare_eq_lt.mp
  refine ascending_eq_of_pairwise_lt hkeys hnodup fun q => ?_
  rw [hmem, Std.ExtTreeMap.mem_keys]

/-- The keys of a transition map are sorted. -/
theorem sources_eq_keys
    (N : NFA) :
    N.sources = N.transitions.keys :=
  ascending_eq_keys Std.ExtTreeMap.nodup_keys fun _ => Std.ExtTreeMap.mem_keys

/-- In whatever order the sources are listed, the automaton has the sorted list. -/
theorem sources_of_listing
    (hnodup : states.Nodup)
    (hmem : ∀ q, q ∈ states ↔ q ∈ N.transitions) :
    ascending states = N.sources := by
  rw [sources_eq_keys, ascending_eq_keys hnodup hmem]

end NFA

end Determinization
