import Determinization.Construction
import Determinization.Proofs.FirstOccurrences
import Determinization.Proofs.Moves
import Determinization.Proofs.OrderedMap

/-!
# Breadth-first exploration

The construction bounds its recursion by a number.  Here its visits are described without the
bound, as a relation between the sets visited before, the queue, and the visits that follow.
The bound is never reached, since the visited sets are distinct nonempty sets of mentioned
states; hence the visits of the construction are an exploration of the start set.

**Results.**
* `exploration_visits`: the construction explores the start set until the queue is empty.
* `Exploration.forall_visit`: what holds of the queue and is kept by every nonempty move holds
  of every visited set.
* `Exploration.discovered_eq`: the visited sets are the first occurrences in the list of the
  queue followed by the nonempty moves of each visited set.
-/

namespace Determinization
namespace NFA

variable {N : NFA}

section Discoveries

/-- The nonempty moves of a set, in the order of its row. -/
def successors
    (N : NFA)
    (s : StateSet) :
    List StateSet :=
  (N.moveRow s).values.filter fun t => !t.isEmpty

theorem entries_moveRow
    (N : NFA)
    (s : StateSet) :
    (N.moveRow s).entries = N.alphabet.eraseDups.map fun a => (a, N.move s a) :=
  OrderedMap.entries_ofList_map (N.move s) N.alphabet

theorem mem_successors_iff
    {s t : StateSet} :
    t ∈ N.successors s
      ↔
    t ≠ ∅ ∧ ∃ a ∈ N.alphabet, N.move s a = t := by
  simp only [successors, OrderedMap.values, entries_moveRow, List.map_map, List.mem_filter,
    List.mem_map, List.mem_eraseDups, Function.comp_apply, Bool.not_eq_true',
    Std.ExtTreeSet.isEmpty_eq_false_iff]
  exact and_comm

/-- The discoveries are the first occurrences of the nonempty sets that are not known. -/
theorem discoveries_eq
    (known sets : List StateSet) :
    discoveries known sets
      =
    ((sets.filter fun s => !s.isEmpty).removeAll known).eraseDups := by
  induction sets generalizing known with
  | nil => simp [discoveries]
  | cons s sets ih =>
      by_cases hs : s.isEmpty = true
      · simp [discoveries, hs, ih]
      · by_cases hmem : s ∈ known
        · simp [discoveries, hs, hmem, ih, List.cons_removeAll]
        · have hsets : (s :: sets).filter (fun s => !s.isEmpty)
              = s :: sets.filter fun s => !s.isEmpty := by
            simp [hs]
          rw [hsets, List.cons_removeAll]
          simp only [discoveries, hs, hmem, ih, List.removeAll_cons]
          simp [hmem, List.eraseDups_cons, List.removeAll, Bool.and_left_comm]

/-- Discoveries follow the known sets as the first occurrences of nonempty sets do. -/
theorem append_discoveries
    {known : List StateSet}
    (hknown : known.Nodup)
    (sets : List StateSet) :
    known ++ discoveries known sets
      =
    (known ++ sets.filter fun s => !s.isEmpty).eraseDups := by
  rw [List.eraseDups_append, eraseDups_of_nodup hknown, discoveries_eq]

end Discoveries

section Relation

/-- The queue after a visit: the sets that waited, and the discoveries of the visit. -/
def queueAfter
    (N : NFA)
    (visited : List StateSet)
    (s : StateSet)
    (queue : List StateSet) :
    List StateSet :=
  queue ++ discoveries (visited ++ s :: queue) (N.moveRow s).values

/-- The visits that empty a queue, after some sets have been visited. -/
inductive Exploration (N : NFA) :
    List StateSet → List StateSet → List Visit → Prop
  | done (visited : List StateSet) :
      Exploration N visited [] []
  | visit {visited queue : List StateSet} {s : StateSet} {visits : List Visit} :
      Exploration N (visited ++ [s]) (N.queueAfter visited s queue) visits →
      Exploration N visited (s :: queue)
        (⟨s, N.moveRow s, (N.queueAfter visited s queue).length⟩ :: visits)

/-- The discovered sets after a visit are those before it and the new successors. -/
theorem append_queueAfter
    {visited queue : List StateSet}
    {s : StateSet}
    (hnodup : (visited ++ s :: queue).Nodup) :
    (visited ++ [s]) ++ N.queueAfter visited s queue
      =
    (visited ++ s :: queue ++ N.successors s).eraseDups := by
  rw [successors, ← append_discoveries hnodup]
  simp [queueAfter]

theorem nodup_append_queueAfter
    {visited queue : List StateSet}
    {s : StateSet}
    (hnodup : (visited ++ s :: queue).Nodup) :
    ((visited ++ [s]) ++ N.queueAfter visited s queue).Nodup := by
  rw [append_queueAfter hnodup]
  exact nodup_eraseDups _

/-- After a visit, a set waits or is visited if it was so before or is a successor. -/
theorem mem_append_queueAfter_iff
    {visited queue : List StateSet}
    {s t : StateSet}
    (hnodup : (visited ++ s :: queue).Nodup) :
    t ∈ (visited ++ [s]) ++ N.queueAfter visited s queue
      ↔
    t ∈ visited ++ s :: queue ∨ t ∈ N.successors s := by
  rw [append_queueAfter hnodup, List.mem_eraseDups, List.mem_append]

end Relation

section Bound

theorem isPartOf_mentioned_of_mem_successors
    {s t : StateSet}
    (h : t ∈ N.successors s) :
    t.IsPartOf N.mentioned := by
  obtain ⟨hne, a, -, rfl⟩ := mem_successors_iff.mp h
  exact ⟨hne, fun q hq => mem_mentioned_of_mem_move hq⟩

/-- With enough fuel the recursion of the construction ends at an empty queue. -/
theorem exploration_explore
    {fuel : Nat}
    {visited queue : List StateSet}
    (hnodup : (visited ++ queue).Nodup)
    (hparts : ∀ s ∈ visited ++ queue, s.IsPartOf N.mentioned)
    (hfuel : 2 ^ N.mentioned.size ≤ visited.length + fuel) :
    N.Exploration visited queue (N.explore fuel visited queue) := by
  induction fuel generalizing visited queue with
  | zero =>
      -- The discovered sets are too few for the visited ones to use up the fuel.
      have hlt := StateSet.length_lt_two_pow_size hnodup hparts
      rw [List.length_append] at hlt
      omega
  | succ fuel ih =>
      cases queue with
      | nil => exact .done visited
      | cons s queue =>
          refine .visit (ih (nodup_append_queueAfter hnodup) ?_ ?_)
          · intro t ht
            rcases (mem_append_queueAfter_iff hnodup).mp ht with hknown | hnew
            · exact hparts t hknown
            · exact isPartOf_mentioned_of_mem_successors hnew
          · rw [List.length_append, List.length_singleton]
            omega

theorem startSet_isPartOf_mentioned
    (N : NFA) :
    N.startSet.IsPartOf N.mentioned := by
  refine ⟨StateSet.ne_empty_iff.mpr ⟨N.start, by simp [startSet]⟩, ?_⟩
  intro q hq
  rw [StateSet.mem_singleton.mp hq]
  exact start_mem_mentioned N

/-- The visits of the construction explore the start set until the queue is empty. -/
theorem exploration_visits
    (N : NFA) :
    N.Exploration [] [N.startSet] N.visits := by
  refine exploration_explore (by simp) ?_ (by simp)
  intro s hs
  rw [List.mem_singleton.mp hs]
  exact startSet_isPartOf_mentioned N

end Bound

namespace Exploration

variable {visited queue : List StateSet} {visits : List Visit}

theorem row_eq
    (h : N.Exploration visited queue visits) :
    ∀ v ∈ visits, v.row = N.moveRow v.state := by
  induction h with
  | done => simp
  | visit _ ih =>
      intro v hv
      rcases List.mem_cons.mp hv with rfl | hv
      · rfl
      · exact ih v hv

/-- What holds of the queue and is kept by successors holds of every visited set. -/
theorem forall_visit
    {P : StateSet → Prop}
    (h : N.Exploration visited queue visits)
    (hnodup : (visited ++ queue).Nodup)
    (hknown : ∀ s ∈ visited ++ queue, P s)
    (hsuccessors : ∀ s, P s → ∀ t ∈ N.successors s, P t) :
    ∀ v ∈ visits, P v.state := by
  induction h with
  | done => simp
  | @visit visited queue s visits _ ih =>
      have hs : P s := hknown s (by simp)
      intro v hv
      rcases List.mem_cons.mp hv with rfl | hv
      · exact hs
      · refine ih (nodup_append_queueAfter hnodup) ?_ v hv
        intro t ht
        rcases (mem_append_queueAfter_iff hnodup).mp ht with ht | ht
        · exact hknown t ht
        · exact hsuccessors s hs t ht

/--
The visited sets are the first occurrences of sets in the list of the queue followed by the
successors of each visited set.
-/
theorem discovered_eq
    (h : N.Exploration visited queue visits)
    (hnodup : (visited ++ queue).Nodup) :
    visited ++ visits.map Visit.state
      =
    (visited ++ queue ++ (visits.map Visit.state).flatMap N.successors).eraseDups := by
  induction h with
  | done visited =>
      rw [eraseDups_of_nodup (by simpa using hnodup)]
      simp
  | @visit visited queue s visits _ ih =>
      have hrest := ih (nodup_append_queueAfter hnodup)
      rw [append_queueAfter hnodup, eraseDups_eraseDups_append] at hrest
      simpa using hrest

end Exploration

end NFA

end Determinization
