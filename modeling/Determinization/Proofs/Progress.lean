import Mathlib.Order.Interval.Finset.Basic
import Mathlib.Data.Int.Interval
import Determinization.Proofs.Accessible

/-!
# The progress of the construction

The construction makes one round for each state and reports the state and the length of the
queue.  After some rounds the sets found so far are those visited and those that wait, each once;
so the length of the queue is the number of sets found less the number of rounds.

All states of the deterministic automaton are sets of mentioned states, and a mentioned state
is in the declared range or dangles.  This bounds the number of rounds.

**Results.**
* `Exploration.explore_eq_take`: a bound on the rounds cuts the visits off and changes nothing else.
* `Exploration.exists_later`: what waits after a visit.
* `card_foundBy`: the sets found by a round, counted.
* `truthfulProgress`: rounds, reports and the bound on the number of states.
-/

namespace Determinization
namespace NFA

variable {N : NFA}

namespace Exploration

variable {visited queue : List StateSet} {visits : List Visit}

/-- A bound on the number of rounds keeps the visits up to the bound. -/
theorem explore_eq_take
    (h : N.Exploration visited queue visits)
    (rounds : Nat) :
    N.explore rounds visited queue = visits.take rounds := by
  induction h generalizing rounds with
  | done visited => cases rounds <;> rfl
  | visit _ ih =>
      cases rounds with
      | zero => rfl
      | succ rounds =>
          rw [explore, List.take_succ_cons, ← ih rounds]
          rfl

/--
After a visit the queue is as long as the visit reports, and the later visits explore it.  The sets
visited or waiting are those of the queue before and the successors of the visited sets.
-/
theorem exists_later
    (h : N.Exploration visited queue visits)
    (hnodup : (visited ++ queue).Nodup)
    {i : Nat}
    (hi : i < visits.length) :
    ∃ later : List StateSet,
      N.Exploration (visited ++ (visits.take (i + 1)).map Visit.state) later
        (visits.drop (i + 1)) ∧
      visits[i].waiting = later.length ∧
      visited ++ (visits.take (i + 1)).map Visit.state ++ later
        =
      (visited ++ queue ++
        ((visits.take (i + 1)).map Visit.state).flatMap N.successors).eraseDups := by
  induction h generalizing i with
  | done => simp at hi
  | visit h ih =>
      cases i with
      | zero => exact ⟨_, by simpa using h, rfl, by simpa using append_queueAfter hnodup⟩
      | succ i =>
          obtain ⟨later, hrest, hwaiting, hfound⟩ :=
            ih (nodup_append_queueAfter hnodup) (Nat.lt_of_succ_lt_succ hi)
          rw [append_queueAfter hnodup, eraseDups_eraseDups_append] at hfound
          exact ⟨later, by simpa using hrest, by simpa using hwaiting, by simpa using hfound⟩

theorem visits_eq_nil_iff
    (h : N.Exploration visited queue visits) :
    visits = [] ↔ queue = [] := by
  cases h <;> simp

end Exploration

section Queue

/-- The start set and the nonempty moves of the states up to the given one. -/
def foundBy
    (N : NFA)
    (i : Nat) :
    Finset StateSet :=
  insert (StateSet.singleton N.start)
    (((N.determinize.states.take (i + 1)).flatMap fun s => N.alphabet.map (N.move s)).toFinset.erase
      ∅)

theorem mem_foundBy_iff
    {i : Nat}
    {t : StateSet} :
    t ∈ N.foundBy i
      ↔
    t ∈ N.startSet :: (N.determinize.states.take (i + 1)).flatMap N.successors := by
  simp only [foundBy, Finset.mem_insert, Finset.mem_erase, List.mem_toFinset, List.mem_flatMap,
    List.mem_map, List.mem_cons, mem_successors_iff]
  refine or_congr Iff.rfl ?_
  constructor
  · rintro ⟨hne, s, hs, hmove⟩
    exact ⟨s, hs, hne, hmove⟩
  · rintro ⟨s, hs, hne, hmove⟩
    exact ⟨hne, s, hs, hmove⟩

/-- The sets found by a visit are those visited and those that wait. -/
theorem card_foundBy
    {i : Nat}
    (hi : i < N.visits.length) :
    (N.foundBy i).card = i + 1 + N.visits[i].waiting := by
  obtain ⟨later, -, hwaiting, hfound⟩ := (exploration_visits N).exists_later (by simp) hi
  have hset :
      N.foundBy i
        =
      ((N.visits.take (i + 1)).map Visit.state ++ later).toFinset := by
    ext t
    rw [mem_foundBy_iff, List.mem_toFinset, ← List.nil_append (List.map _ _), hfound,
      List.mem_eraseDups, states_determinize, List.map_take]
    rfl
  have hnodup : ((N.visits.take (i + 1)).map Visit.state ++ later).Nodup := by
    rw [← List.nil_append (List.map _ _), hfound]
    exact nodup_eraseDups _
  rw [hset, List.toFinset_card_of_nodup hnodup, List.length_append, List.length_map,
    List.length_take, hwaiting]
  omega

/-- The queue is empty after the last visit and only then. -/
theorem waiting_eq_zero_iff
    {i : Nat}
    (hi : i < N.visits.length) :
    N.visits[i].waiting = 0 ↔ i + 1 = N.visits.length := by
  obtain ⟨later, hrest, hwaiting, -⟩ := (exploration_visits N).exists_later (by simp) hi
  rw [hwaiting, List.length_eq_zero_iff, ← hrest.visits_eq_nil_iff, List.drop_eq_nil_iff]
  omega

/-- The report of a visit names the state and the number of sets found but not yet visited. -/
theorem progress_eq_mapIdx
    (N : NFA) :
    N.progress
      =
    N.determinize.states.mapIdx fun i s =>
      "обработано " ++ s.braces ++ ", в очереди "
        ++ Text.numeral ((N.foundBy i).card - (i + 1)) := by
  refine List.ext_getElem ?_ fun i hi _ => ?_
  · rw [progress, List.length_map, List.length_mapIdx, states_determinize, List.length_map]
  · have hvisit : i < N.visits.length := by
      rwa [progress, List.length_map] at hi
    have hwaiting :
        ((i + 1 + N.visits[i].waiting : Nat) : Int) - (i + 1) = N.visits[i].waiting := by
      omega
    simp only [progress, states_determinize, List.getElem_map, List.getElem_mapIdx]
    rw [card_foundBy hvisit, hwaiting]
    rfl

end Queue

section Bound

/-- A mentioned state is in the declared range or dangles. -/
theorem mem_range_or_mem_dangling
    {q : Int}
    (hq : q ∈ N.mentioned) :
    (0 ≤ q ∧ q < N.numStates) ∨ q ∈ N.dangling := by
  by_cases hrange : 0 ≤ q ∧ q < N.numStates
  · exact Or.inl hrange
  · exact Or.inr (mem_dangling_iff.mpr ⟨hq, hrange⟩)

theorem size_mentioned_le
    (N : NFA) :
    N.mentioned.size ≤ (max N.numStates 0).toNat + N.dangling.size := by
  have hsubset : N.mentioned.members ⊆ Finset.Ico 0 N.numStates ∪ N.dangling.members := by
    intro q hq
    rw [Finset.mem_union, Finset.mem_Ico, StateSet.mem_members]
    exact mem_range_or_mem_dangling (StateSet.mem_members.mp hq)
  have hcard := (Finset.card_le_card hsubset).trans (Finset.card_union_le _ _)
  rw [StateSet.card_members, StateSet.card_members, Int.card_Ico] at hcard
  omega

theorem isPartOf_mentioned_of_mem_states
    {s : StateSet}
    (hs : s ∈ N.determinize.states) :
    s.IsPartOf N.mentioned :=
  forall_mem_states (P := fun s => s.IsPartOf N.mentioned) (startSet_isPartOf_mentioned N)
    (fun _ _ _ => isPartOf_mentioned_of_mem_successors) s hs

theorem length_states_lt
    (N : NFA) :
    N.determinize.states.length < 2 ^ ((max N.numStates 0).toNat + N.dangling.size) :=
  calc
    N.determinize.states.length
      < 2 ^ N.mentioned.size :=
        StateSet.length_lt_two_pow_size (nodup_states N) fun _ => isPartOf_mentioned_of_mem_states
    _ ≤ 2 ^ ((max N.numStates 0).toNat + N.dangling.size) :=
        Nat.pow_le_pow_right (by omega) (size_mentioned_le N)

end Bound

/--
The construction makes one round for each state, in the order of discovery, and then its queue is
empty.  The report of a round names the state and the number of sets found but not yet visited.
There are no more states than nonempty sets of states that are in the declared range or dangle.
-/
structure TruthfulProgress (N : NFA) : Prop where
  states_eq :
    N.determinize.states
      =
    (StateSet.singleton N.start :: N.determinize.states.flatMap N.successors).eraseDups
  exploration : N.Exploration [] [StateSet.singleton N.start] N.visits
  rounds_eq :
    ∀ rounds : Nat,
      (N.explore rounds [] [StateSet.singleton N.start]).map Visit.state
        =
      N.determinize.states.take rounds
  progress_eq :
    N.progress
      =
    N.determinize.states.mapIdx fun i s =>
      "обработано " ++ s.braces ++ ", в очереди "
        ++ Text.numeral ((N.foundBy i).card - (i + 1))
  waits_at_last_iff :
    ∀ i < N.determinize.states.length,
      ((N.foundBy i).card : Int) - (i + 1) = 0 ↔ i + 1 = N.determinize.states.length
  inRange_or_mem_dangling :
    ∀ s ∈ N.determinize.states, ∀ q ∈ s, (0 ≤ q ∧ q < N.numStates) ∨ q ∈ N.dangling
  length_states_le :
    N.determinize.states.length ≤ 2 ^ ((max N.numStates 0).toNat + N.dangling.size) - 1
  length_states_le_of_dangling_eq_empty :
    N.dangling = ∅ → N.determinize.states.length ≤ 2 ^ N.numStates.toNat - 1

/-- The construction stops after one round for each state, and its reports are true. -/
theorem truthfulProgress
    (N : NFA) :
    TruthfulProgress N where
  states_eq := states_eq_eraseDups N
  exploration := exploration_visits N
  rounds_eq rounds := by
    rw [states_determinize, ← List.map_take]
    exact congrArg (List.map Visit.state) ((exploration_visits N).explore_eq_take rounds)
  progress_eq := progress_eq_mapIdx N
  waits_at_last_iff i hi := by
    have hvisit : i < N.visits.length := by
      simpa [states_determinize] using hi
    rw [states_determinize, List.length_map, ← waiting_eq_zero_iff hvisit, card_foundBy hvisit]
    omega
  inRange_or_mem_dangling s hs q hq :=
    mem_range_or_mem_dangling ((isPartOf_mentioned_of_mem_states hs).2 q hq)
  length_states_le := Nat.le_sub_one_of_lt (length_states_lt N)
  length_states_le_of_dangling_eq_empty hdangling := by
    have hlt := length_states_lt N
    have hsize : N.dangling.size = 0 := by
      rw [hdangling]
      rfl
    have hrange : (max N.numStates 0).toNat = N.numStates.toNat := by
      omega
    rw [hsize, hrange, Nat.add_zero] at hlt
    exact Nat.le_sub_one_of_lt hlt

end NFA

end Determinization
