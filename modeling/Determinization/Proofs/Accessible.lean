import Determinization.Proofs.Exploration

/-!
# The accessible subset automaton

The construction lists exactly the nonempty sets that successive moves reach from the start
set, each once and in the order of their discovery, and its rows are the moves of these sets.

**Results.**
* `mem_states_iff`, `nodup_states` and `states_eq_eraseDups`: the states, as a set and as a list.
* `row_eq_moveRow` and `step_eq`: rows and steps are moves.
* `mem_edges_iff` and `states_eq_eraseDups_targets`: the edges, from which the list of states
  can be read off.
* `determinize_isAccessibleSubsetAutomaton` puts these together.
-/

namespace Determinization

theorem DFA.eq_of_parts_eq
    {D E : DFA}
    (hstates : D.states = E.states)
    (halphabet : D.alphabet = E.alphabet)
    (htransitions : D.transitions = E.transitions)
    (hstart : D.start = E.start)
    (haccepts : D.accepts = E.accepts) :
    D = E := by
  cases D
  cases E
  cases hstates
  cases halphabet
  cases htransitions
  cases hstart
  cases haccepts
  rfl

/--
A deterministic automaton is the accessible subset automaton of a nondeterministic one: its
states are the nonempty sets that moves by symbols of the alphabet reach from the start set,
its rows hold the moves of each state, and a state accepts if it has an accepting member.
-/
structure IsAccessibleSubsetAutomaton
    (N : NFA)
    (D : DFA) :
    Prop where
  alphabet_eq : D.alphabet = N.alphabet
  start_eq : D.start = StateSet.singleton N.start
  head?_states : D.states.head? = some D.start
  nodup_states : D.states.Nodup
  mem_states_iff :
    ∀ s, s ∈ D.states
      ↔
    s ≠ ∅ ∧
      ∃ symbols : List Symbol,
        (∀ a ∈ symbols, a ∈ N.alphabet) ∧
        N.moveAlong (StateSet.singleton N.start) symbols = s
  keys_transitions : D.transitions.keys = D.states
  rows :
    ∀ s ∈ D.states, ∃ row : MoveRow,
      D.transitions.get? s = some row ∧
      row.keys = N.alphabet.eraseDups ∧
      ∀ a ∈ N.alphabet, row.get? a = some (N.move s a)
  closed : ∀ s ∈ D.states, ∀ a ∈ N.alphabet, N.move s a ≠ ∅ → N.move s a ∈ D.states
  sublist_accepts : D.accepts.Sublist D.states
  mem_accepts_iff : ∀ s, s ∈ D.accepts ↔ s ∈ D.states ∧ ∃ q, q ∈ s ∧ q ∈ N.accepts
  step_eq_empty : ∀ s a, s ∉ D.states ∨ a ∉ N.alphabet → D.step s a = ∅

namespace NFA

variable {N : NFA}

section States

theorem states_determinize
    (N : NFA) :
    N.determinize.states = N.visits.map Visit.state :=
  rfl

/-- The states are the first occurrences in the list of the start set and all successors. -/
theorem states_eq_eraseDups
    (N : NFA) :
    N.determinize.states
      =
    (N.startSet :: N.determinize.states.flatMap N.successors).eraseDups := by
  have h := (exploration_visits N).discovered_eq (by simp)
  simpa [states_determinize] using h

theorem nodup_states
    (N : NFA) :
    N.determinize.states.Nodup := by
  rw [states_eq_eraseDups]
  exact nodup_eraseDups _

theorem head?_states
    (N : NFA) :
    N.determinize.states.head? = some N.startSet := by
  rw [states_eq_eraseDups, List.eraseDups_cons]
  rfl

theorem startSet_mem_states
    (N : NFA) :
    N.startSet ∈ N.determinize.states :=
  List.mem_of_head? (head?_states N)

theorem mem_states_of_mem_successors
    {s t : StateSet}
    (hs : s ∈ N.determinize.states)
    (ht : t ∈ N.successors s) :
    t ∈ N.determinize.states := by
  rw [states_eq_eraseDups, List.mem_eraseDups]
  exact List.mem_cons_of_mem _ (List.mem_flatMap.mpr ⟨s, hs, ht⟩)

/-- A nonempty move of a state is a state. -/
theorem move_mem_states
    {s : StateSet}
    {a : Symbol}
    (hs : s ∈ N.determinize.states)
    (ha : a ∈ N.alphabet)
    (hne : N.move s a ≠ ∅) :
    N.move s a ∈ N.determinize.states :=
  mem_states_of_mem_successors hs (mem_successors_iff.mpr ⟨hne, a, ha, rfl⟩)

/-- What holds of the start set and is kept by successors holds of every state. -/
theorem forall_mem_states
    {P : StateSet → Prop}
    (hstart : P N.startSet)
    (hsuccessors : ∀ s, P s → ∀ t ∈ N.successors s, P t) :
    ∀ s ∈ N.determinize.states, P s := by
  intro s hs
  rw [states_determinize] at hs
  obtain ⟨v, hv, rfl⟩ := List.mem_map.mp hs
  exact (exploration_visits N).forall_visit (by simp) (by simpa using hstart) hsuccessors v hv

/-- Every state is nonempty and reached along symbols of the alphabet. -/
theorem reached_of_mem_states
    {s : StateSet}
    (hs : s ∈ N.determinize.states) :
    s ≠ ∅ ∧
      ∃ symbols : List Symbol,
        (∀ a ∈ symbols, a ∈ N.alphabet) ∧
        N.moveAlong N.startSet symbols = s := by
  refine forall_mem_states (P := fun s => s ≠ ∅ ∧ ∃ symbols : List Symbol,
    (∀ a ∈ symbols, a ∈ N.alphabet) ∧ N.moveAlong N.startSet symbols = s)
    ⟨(startSet_isPartOf_mentioned N).1, [], by simp, rfl⟩ ?_ s hs
  rintro s ⟨-, symbols, hsymbols, rfl⟩ t ht
  obtain ⟨hne, a, ha, rfl⟩ := mem_successors_iff.mp ht
  refine ⟨hne, symbols ++ [a], ?_, moveAlong_concat _ _ _⟩
  intro b hb
  rcases List.mem_append.mp hb with hb | hb
  · exact hsymbols b hb
  · exact List.mem_singleton.mp hb ▸ ha

/-- Moves along symbols of the alphabet end in a state or in the empty set. -/
theorem moveAlong_mem_states
    {symbols : List Symbol}
    (hsymbols : ∀ a ∈ symbols, a ∈ N.alphabet)
    (hne : N.moveAlong N.startSet symbols ≠ ∅) :
    N.moveAlong N.startSet symbols ∈ N.determinize.states := by
  induction symbols using List.reverseRecOn with
  | nil => exact startSet_mem_states N
  | append_singleton symbols a ih =>
      rw [moveAlong_concat] at hne ⊢
      have hbefore : N.moveAlong N.startSet symbols ≠ ∅ := by
        intro hempty
        rw [hempty, move_empty] at hne
        exact hne rfl
      have hstate :=
        ih (fun b hb => hsymbols b (List.mem_append_left _ hb)) hbefore
      exact move_mem_states hstate (hsymbols a (by simp)) hne

/-- The states are the nonempty sets reached along symbols of the alphabet. -/
theorem mem_states_iff
    {s : StateSet} :
    s ∈ N.determinize.states
      ↔
    s ≠ ∅ ∧
      ∃ symbols : List Symbol,
        (∀ a ∈ symbols, a ∈ N.alphabet) ∧
        N.moveAlong N.startSet symbols = s := by
  constructor
  · exact reached_of_mem_states
  · rintro ⟨hne, symbols, hsymbols, rfl⟩
    exact moveAlong_mem_states hsymbols hne

end States

section Rows

/-- The transitions are the table of the rows of moves. -/
theorem transitions_determinize
    (N : NFA) :
    N.determinize.transitions
      =
    OrderedMap.ofList (N.determinize.states.map fun s => (s, N.moveRow s)) := by
  have hrows :
      N.visits.map (fun v => (v.state, v.row))
        =
      N.visits.map fun v => (v.state, N.moveRow v.state) :=
    List.map_congr_left fun v hv => by rw [(exploration_visits N).row_eq v hv]
  simp [determinize, hrows, Function.comp_def]

/-- The rows stand in the order of the states. -/
theorem entries_transitions
    (N : NFA) :
    N.determinize.transitions.entries = N.determinize.states.map fun s => (s, N.moveRow s) := by
  rw [transitions_determinize, OrderedMap.entries_ofList_map, eraseDups_of_nodup (nodup_states N)]

theorem keys_transitions
    (N : NFA) :
    N.determinize.transitions.keys = N.determinize.states := by
  rw [transitions_determinize, OrderedMap.keys_ofList_map, eraseDups_of_nodup (nodup_states N)]

/-- The row of a state holds its moves, and no other set has a row. -/
theorem get?_transitions
    (N : NFA)
    (s : StateSet) :
    N.determinize.transitions.get? s
      =
    if s ∈ N.determinize.states then some (N.moveRow s) else none := by
  rw [transitions_determinize, OrderedMap.get?_ofList_map]

theorem keys_moveRow
    (N : NFA)
    (s : StateSet) :
    (N.moveRow s).keys = N.alphabet.eraseDups :=
  OrderedMap.keys_ofList_map (N.move s) N.alphabet

/-- A row holds the move of its set for each symbol of the alphabet. -/
theorem get?_moveRow
    (N : NFA)
    (s : StateSet)
    (a : Symbol) :
    (N.moveRow s).get? a = if a ∈ N.alphabet then some (N.move s a) else none :=
  OrderedMap.get?_ofList_map (N.move s) N.alphabet a

theorem row_eq_moveRow
    {s : StateSet}
    (hs : s ∈ N.determinize.states) :
    N.determinize.row s = N.moveRow s := by
  simp [DFA.row, get?_transitions, hs]

/-- A step from a state by a symbol of the alphabet is the move; no other set is stepped to. -/
theorem step_eq
    (N : NFA)
    (s : StateSet)
    (a : Symbol) :
    N.determinize.step s a
      =
    if s ∈ N.determinize.states ∧ a ∈ N.alphabet then N.move s a else ∅ := by
  by_cases hs : s ∈ N.determinize.states
  · rw [DFA.step, row_eq_moveRow hs, get?_moveRow]
    by_cases ha : a ∈ N.alphabet <;> simp [hs, ha]
  · have hrow : N.determinize.row s = OrderedMap.empty := by
      simp [DFA.row, get?_transitions, hs]
    simp [DFA.step, hrow, hs]

end Rows

section Accepting

theorem accepts_determinize
    (N : NFA) :
    N.determinize.accepts = N.determinize.states.filter N.isAccepting :=
  rfl

theorem mem_accepts_iff
    {s : StateSet} :
    s ∈ N.determinize.accepts
      ↔
    s ∈ N.determinize.states ∧ s.meets N.accepts = true := by
  simp [determinize, isAccepting]

/-- A state of a determinization accepts if and only if it has an accepting member. -/
theorem isAccepting_determinize
    {s : StateSet}
    (hs : s ∈ N.determinize.states) :
    N.determinize.isAccepting s = N.isAccepting s := by
  simp [DFA.isAccepting, isAccepting, mem_accepts_iff, hs]

end Accepting

section Edges

/-- The moves of a state are its nonempty moves in the order of the alphabet. -/
theorem movesFrom_determinize
    {s : StateSet}
    (hs : s ∈ N.determinize.states) :
    N.determinize.movesFrom s
      =
    (N.alphabet.eraseDups.filter fun a => !(N.move s a).isEmpty).map fun a =>
      ⟨s, a, N.move s a⟩ := by
  rw [DFA.movesFrom, row_eq_moveRow hs, entries_moveRow, List.filter_map, List.map_map]
  rfl

/-- The edges are the nonempty moves of the states. -/
theorem mem_edges_iff
    {m : Move} :
    m ∈ N.determinize.edges
      ↔
    m.source ∈ N.determinize.states ∧
      m.symbol ∈ N.alphabet ∧
      m.target = N.move m.source m.symbol ∧
      m.target ≠ ∅ := by
  rw [DFA.edges, List.mem_flatMap]
  constructor
  · rintro ⟨s, hs, hm⟩
    rw [movesFrom_determinize hs] at hm
    obtain ⟨a, ha, rfl⟩ := List.mem_map.mp hm
    obtain ⟨ha, hne⟩ := List.mem_filter.mp ha
    exact ⟨hs, List.mem_eraseDups.mp ha, rfl, by simpa using hne⟩
  · rintro ⟨hs, ha, htarget, hne⟩
    refine ⟨m.source, hs, ?_⟩
    rw [movesFrom_determinize hs, List.mem_map]
    refine ⟨m.symbol, List.mem_filter.mpr ⟨List.mem_eraseDups.mpr ha, ?_⟩, ?_⟩
    · simpa [← htarget] using hne
    · rw [← htarget]

theorem map_target_movesFrom
    {s : StateSet}
    (hs : s ∈ N.determinize.states) :
    (N.determinize.movesFrom s).map Move.target = N.successors s := by
  rw [movesFrom_determinize hs, successors, OrderedMap.values, entries_moveRow, List.map_map,
    List.map_map, List.filter_map]
  rfl

/-- The states are the first occurrences in the list of the start set and the ends of edges. -/
theorem states_eq_eraseDups_targets
    (N : NFA) :
    N.determinize.states
      =
    (N.determinize.start :: N.determinize.edges.map Move.target).eraseDups := by
  have htargets :
      N.determinize.edges.map Move.target
        =
      N.determinize.states.flatMap N.successors := by
    rw [DFA.edges, List.map_flatMap]
    exact List.flatMap_congr fun s hs => map_target_movesFrom hs
  rw [htargets]
  exact states_eq_eraseDups N

end Edges

/--
Determinizations with the same alphabet, states, start set and accepting sets are equal if their moves
from the states by the symbols are.
-/
theorem determinize_eq_of_moves_eq
    {M : NFA}
    (halphabet : M.alphabet = N.alphabet)
    (hstates : M.determinize.states = N.determinize.states)
    (hstart : M.determinize.start = N.determinize.start)
    (haccepts : M.determinize.accepts = N.determinize.accepts)
    (hmoves : ∀ s ∈ N.determinize.states, ∀ a ∈ N.alphabet, M.move s a = N.move s a) :
    M.determinize = N.determinize := by
  have hrow : ∀ s ∈ N.determinize.states, M.moveRow s = N.moveRow s := by
    intro s hs
    have hentries : M.alphabet.map (fun a => (a, M.move s a))
        = N.alphabet.map fun a => (a, N.move s a) := by
      rw [halphabet]
      exact List.map_congr_left fun a ha => by rw [hmoves s hs a ha]
    rw [moveRow, moveRow, hentries]
  have htransitions : M.determinize.transitions = N.determinize.transitions := by
    rw [transitions_determinize, transitions_determinize, hstates]
    congr 1
    exact List.map_congr_left fun s hs => by rw [hrow s hs]
  exact DFA.eq_of_parts_eq hstates halphabet htransitions hstart haccepts

/-- The construction yields the accessible subset automaton. -/
theorem determinize_isAccessibleSubsetAutomaton
    (N : NFA) :
    IsAccessibleSubsetAutomaton N N.determinize where
  alphabet_eq := rfl
  start_eq := rfl
  head?_states := head?_states N
  nodup_states := nodup_states N
  mem_states_iff _ := mem_states_iff
  keys_transitions := keys_transitions N
  rows s hs := by
    refine ⟨N.moveRow s, by rw [get?_transitions, if_pos hs], keys_moveRow N s, ?_⟩
    intro a ha
    rw [get?_moveRow, if_pos ha]
  closed s hs a ha hne :=
    mem_states_of_mem_successors hs (mem_successors_iff.mpr ⟨hne, a, ha, rfl⟩)
  sublist_accepts := List.filter_sublist
  mem_accepts_iff s := by
    rw [mem_accepts_iff, StateSet.meets_iff]
  step_eq_empty s a h := by
    rw [step_eq, if_neg (not_and_or.mpr h)]

end NFA

end Determinization
