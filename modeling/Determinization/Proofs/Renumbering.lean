import Determinization.Proofs.Describing
import Determinization.Proofs.EdgeEncoding
import Determinization.Proofs.Language
import Determinization.Proofs.Simulation

/-!
# Determinizing a second time

The states of a deterministic automaton are numbered in their order.  With the numbers in place of
the sets, its edges make a nondeterministic automaton, whose states are integers again and which
can be determinized in its turn.  A state has at most one target by a symbol, so the second
construction meets singletons only, and it runs in lockstep with the first: the states are
discovered in the order of their numbers.

**Results.**
* `mem_targets_number_iff`: the target of a number is the number of the move.
* `carries_numberSet`: the map from a state to the singleton of its number carries the automaton to
  the numbered one.
* `determinize_numbered`: the second determinization is the first with its states renamed.
-/

namespace Determinization

namespace StateSet

theorem singleton_ne_empty
    (q : Int) :
    singleton q ≠ ∅ :=
  ne_empty_iff.mpr ⟨q, mem_singleton.mpr rfl⟩

theorem singleton_inj
    {q r : Int}
    (h : singleton q = singleton r) :
    q = r :=
  mem_singleton.mp (h ▸ mem_singleton.mpr rfl)

end StateSet

namespace DFA

variable {D : DFA}

/-- The number of a state: its place in the order of the states, counted from zero. -/
def number
    (D : DFA)
    (s : StateSet) :
    Int :=
  D.states.idxOf s

/-- The integer is the number of the state. -/
def HasNumber
    (D : DFA)
    (s : StateSet)
    (q : Int) :
    Prop :=
  ∃ i : Nat, D.states[i]? = some s ∧ q = i

/-- The edge leads between the numbers of two states between which the automaton has an edge. -/
def IsNumberEdge
    (D : DFA)
    (e : Edge) :
    Prop :=
  ∃ s t,
    D.HasNumber s e.source ∧
    D.HasNumber t e.target ∧
    ⟨s, e.symbol, t⟩ ∈ D.edges

/-- The edge between the numbers of the ends of a move. -/
def numberEdge
    (D : DFA)
    (m : Move) :
    Edge :=
  ⟨D.number m.source, m.symbol, D.number m.target⟩

/-- The singleton of the number of a state; the empty set stands for itself. -/
def numberSet
    (D : DFA)
    (s : StateSet) :
    StateSet :=
  if s.isEmpty then ∅ else StateSet.singleton (D.number s)

/-- The nondeterministic automaton has the numbers of the states as its states, with the edges and
the accepting states of the deterministic one. -/
structure IsNumbered
    (D : DFA)
    (M : NFA) :
    Prop where
  alphabet_eq : M.alphabet = D.alphabet
  start_eq : M.start = 0
  mem_accepts_iff : ∀ q, q ∈ M.accepts ↔ ∃ s ∈ D.accepts, D.HasNumber s q
  mem_targets_iff : ∀ q a p, p ∈ M.targets q a ↔ D.IsNumberEdge ⟨q, a, p⟩

section Numbers

theorem hasNumber_number
    {s : StateSet}
    (hs : s ∈ D.states) :
    D.HasNumber s (D.number s) := by
  have hlt := List.idxOf_lt_length_of_mem hs
  exact ⟨D.states.idxOf s, List.getElem?_eq_some_iff.mpr ⟨hlt, List.getElem_idxOf hlt⟩, rfl⟩

/-- A number is that of one state only. -/
theorem HasNumber.unique
    {s t : StateSet}
    {q : Int}
    (hs : D.HasNumber s q)
    (ht : D.HasNumber t q) :
    s = t := by
  obtain ⟨i, hi, rfl⟩ := hs
  obtain ⟨j, hj, hij⟩ := ht
  obtain rfl : i = j := Int.ofNat.inj hij
  exact Option.some.inj (hi.symm.trans hj)

theorem HasNumber.inRange
    {s : StateSet}
    {q : Int}
    (h : D.HasNumber s q) :
    0 ≤ q ∧ q < D.states.length := by
  obtain ⟨i, hi, rfl⟩ := h
  have hlt := (List.getElem?_eq_some_iff.mp hi).1
  omega

/-- If no state is repeated, a state has one number only. -/
theorem hasNumber_iff
    (hnodup : D.states.Nodup)
    {s : StateSet}
    {q : Int} :
    D.HasNumber s q ↔ s ∈ D.states ∧ q = D.number s := by
  constructor
  · rintro ⟨i, hi, rfl⟩
    obtain ⟨hlt, rfl⟩ := List.getElem?_eq_some_iff.mp hi
    exact ⟨List.getElem_mem hlt, by rw [number, hnodup.idxOf_getElem i hlt]⟩
  · rintro ⟨hs, rfl⟩
    exact hasNumber_number hs

/-- Different states have different numbers. -/
theorem number_inj
    {s t : StateSet}
    (hs : s ∈ D.states)
    (ht : t ∈ D.states)
    (heq : D.number s = D.number t) :
    s = t :=
  (hasNumber_number hs).unique (heq ▸ hasNumber_number ht)

@[simp] theorem numberSet_empty :
    D.numberSet ∅ = ∅ := by
  simp [numberSet]

theorem numberSet_of_ne_empty
    {s : StateSet}
    (hs : s ≠ ∅) :
    D.numberSet s = StateSet.singleton (D.number s) := by
  simp [numberSet, hs]

/-- The states and the empty set are told apart by the sets that stand for them. -/
theorem numberSet_inj
    {s t : StateSet}
    (hs : s = ∅ ∨ s ∈ D.states)
    (ht : t = ∅ ∨ t ∈ D.states)
    (heq : D.numberSet s = D.numberSet t) :
    s = t := by
  by_cases hsempty : s = ∅
  · by_cases htempty : t = ∅
    · rw [hsempty, htempty]
    · rw [hsempty, numberSet_empty, numberSet_of_ne_empty htempty] at heq
      exact absurd heq.symm (StateSet.singleton_ne_empty _)
  · by_cases htempty : t = ∅
    · rw [htempty, numberSet_empty, numberSet_of_ne_empty hsempty] at heq
      exact absurd heq (StateSet.singleton_ne_empty _)
    · rw [numberSet_of_ne_empty hsempty, numberSet_of_ne_empty htempty] at heq
      exact number_inj (hs.resolve_left hsempty) (ht.resolve_left htempty)
        (StateSet.singleton_inj heq)

/-- In order of the states, the numbers count up from zero. -/
theorem map_number_states
    (hnodup : D.states.Nodup) :
    D.states.map D.number = (List.range D.states.length).map fun i : Nat => (i : Int) := by
  refine List.ext_getElem (by simp) ?_
  intro i hi _
  have hlt : i < D.states.length := by
    simpa using hi
  simp [number, hnodup.idxOf_getElem i hlt]

end Numbers

end DFA

namespace NFA

variable {N : NFA} {accepts : List Int} {edges : List Edge}

section Numbered

/-- A state is never empty, so a singleton stands for it. -/
theorem numberSet_of_mem_states
    {s : StateSet}
    (hs : s ∈ N.determinize.states) :
    N.determinize.numberSet s = StateSet.singleton (N.determinize.number s) :=
  DFA.numberSet_of_ne_empty (mem_states_iff.mp hs).1

/-- The first state has the number zero. -/
theorem number_startSet
    (N : NFA) :
    N.determinize.number N.startSet = 0 := by
  obtain ⟨others, hstates⟩ := List.head?_eq_some_iff.mp (head?_states N)
  simp [DFA.number, hstates]

variable {M : NFA} (h : N.determinize.IsNumbered M)
include h

/-- From the number of a state a symbol leads to the number of its move, if the move is not empty. -/
theorem mem_targets_number_iff
    {s : StateSet}
    {a : Symbol}
    {p : Int}
    (hs : s ∈ N.determinize.states)
    (ha : a ∈ N.alphabet) :
    p ∈ M.targets (N.determinize.number s) a
      ↔
    N.move s a ≠ ∅ ∧ p = N.determinize.number (N.move s a) := by
  rw [h.mem_targets_iff]
  constructor
  · rintro ⟨r, t, hr, ht, hedge⟩
    obtain rfl : r = s := hr.unique (DFA.hasNumber_number hs)
    obtain ⟨-, -, hmove, hne⟩ := mem_edges_iff.mp hedge
    have hp := ((DFA.hasNumber_iff (nodup_states N)).mp ht).2
    exact ⟨hmove ▸ hne, hmove ▸ hp⟩
  · rintro ⟨hne, rfl⟩
    have hmove : N.move s a ∈ N.determinize.states :=
      move_mem_states hs ha hne
    exact ⟨s, N.move s a, DFA.hasNumber_number hs, DFA.hasNumber_number hmove,
      mem_edges_iff.mpr ⟨hs, ha, rfl, hne⟩⟩

/-- The move of the singleton of a number is the singleton of the number of the move. -/
theorem move_number
    {s : StateSet}
    {a : Symbol}
    (hs : s ∈ N.determinize.states)
    (ha : a ∈ N.alphabet) :
    M.move (StateSet.singleton (N.determinize.number s)) a
      =
    N.determinize.numberSet (N.move s a) := by
  refine StateSet.ext_mem fun p => ?_
  have hmove :
      p ∈ M.move (StateSet.singleton (N.determinize.number s)) a
        ↔
      N.move s a ≠ ∅ ∧ p = N.determinize.number (N.move s a) := by
    rw [mem_move_iff, ← mem_targets_number_iff h hs ha]
    simp
  rw [hmove]
  by_cases hempty : N.move s a = ∅
  · simp [hempty]
  · simp [DFA.numberSet_of_ne_empty hempty, hempty]

/-- The singleton of a number accepts if and only if the state does. -/
theorem isAccepting_number
    {s : StateSet}
    (hs : s ∈ N.determinize.states) :
    M.isAccepting (StateSet.singleton (N.determinize.number s)) = N.isAccepting s := by
  have hmem : N.determinize.number s ∈ M.accepts ↔ s.meets N.accepts = true := by
    rw [h.mem_accepts_iff]
    constructor
    · rintro ⟨t, ht, hnumber⟩
      rw [← hnumber.unique (DFA.hasNumber_number hs)]
      exact (mem_accepts_iff.mp ht).2
    · intro hmeets
      exact ⟨s, mem_accepts_iff.mpr ⟨hs, hmeets⟩, DFA.hasNumber_number hs⟩
  rw [Bool.eq_iff_iff, isAccepting, isAccepting, StateSet.meets_iff, ← hmem]
  simp

/-- The singletons of the numbers carry an automaton to the numbered one. -/
theorem carries_numberSet :
    Carries N.determinize.numberSet (fun s => s = ∅ ∨ s ∈ N.determinize.states) N M where
  alphabet_eq := h.alphabet_eq
  startSet_eq := by
    rw [numberSet_of_mem_states (startSet_mem_states N), number_startSet, startSet,
      h.start_eq]
  empty_eq := DFA.numberSet_empty
  start := Or.inr (startSet_mem_states N)
  empty := Or.inl rfl
  closed := by
    rintro s (rfl | hs) a ha
    · exact Or.inl (move_empty a)
    · by_cases hempty : N.move s a = ∅
      · exact Or.inl hempty
      · exact Or.inr (move_mem_states hs ha hempty)
  move_eq := by
    rintro s (rfl | hs) a ha
    · simp
    · rw [numberSet_of_mem_states hs, move_number h hs ha]
  isAccepting_eq := by
    rintro s (rfl | hs)
    · simp [isAccepting]
    · rw [numberSet_of_mem_states hs, isAccepting_number h hs]
  injective _ _ hs ht := DFA.numberSet_inj hs ht

end Numbered

section Built

variable
    (haccepts : ∀ q, q ∈ accepts ↔ ∃ s ∈ N.determinize.accepts, N.determinize.HasNumber s q)
    (hedges : ∀ e, e ∈ edges ↔ N.determinize.IsNumberEdge e)
include haccepts hedges

/-- The automaton built from the numbers is a numbered one. -/
theorem isNumbered_build
    (hN : N.alphabet.Nodup) :
    N.determinize.IsNumbered
      (build N.determinize.states.length N.determinize.alphabet 0 accepts edges) where
  alphabet_eq := eraseDups_of_nodup hN
  start_eq := rfl
  mem_accepts_iff q := by
    rw [← haccepts]
    exact StateSet.mem_ofList
  mem_targets_iff q a p := by
    rw [mem_targets_build_iff, hedges]

/-- The automaton built from the numbers mentions numbers of states only, and these are in range. -/
theorem dangling_build_numbers :
    (build N.determinize.states.length N.determinize.alphabet 0 accepts edges).dangling = ∅ := by
  have hzero : N.determinize.HasNumber N.startSet 0 :=
    number_startSet N ▸ DFA.hasNumber_number (startSet_mem_states N)
  have hinRange :
      ∀ q ∈ (build N.determinize.states.length N.determinize.alphabet 0 accepts edges).mentioned,
        0 ≤ q ∧ q < N.determinize.states.length := by
    intro q hq
    rcases mem_mentioned_build_iff.mp hq with rfl | hq | ⟨e, he, hq⟩
    · exact hzero.inRange
    · obtain ⟨s, -, hs⟩ := (haccepts q).mp hq
      exact hs.inRange
    · obtain ⟨s, t, hs, ht, -⟩ := (hedges e).mp he
      rcases hq with rfl | rfl
      · exact hs.inRange
      · exact ht.inRange
  refine StateSet.ext_mem fun q => ?_
  rw [mem_dangling_iff]
  constructor
  · rintro ⟨hq, hout⟩
    exact absurd (hinRange q hq) hout
  · intro hq
    simp at hq

end Built

/--
The determinization of a numbered automaton is the deterministic automaton that was numbered, with
the singleton of its number for each state: the states are the singletons of `0`, `1`, ... in this
order, and accepting states, edges and rows stand where they stood.  The numbered automaton
mentions no state out of its range.
-/
structure DFA.IsRecovered
    (D : DFA)
    (M : NFA) :
    Prop where
  states_eq :
    M.determinize.states
      =
    (List.range D.states.length).map fun i : Nat => StateSet.singleton i
  accepts_eq :
    M.determinize.accepts = D.accepts.map fun s => StateSet.singleton (D.number s)
  edges_eq :
    M.determinize.edges
      =
    D.edges.map fun m =>
      ⟨StateSet.singleton (D.number m.source), m.symbol, StateSet.singleton (D.number m.target)⟩
  isImage : DFA.IsImage D.numberSet D M.determinize
  dangling_eq : M.dangling = ∅

/--
The states of a determinization are numbered in the order of their discovery, and an automaton is
built from the numbers: with a state for each number, with zero as its start, with the numbers of
the accepting states, and with an edge between two numbers wherever there is one between the states.
Then determinizing it leads back to the first determinization, except for the names of the states.
-/
theorem determinize_numbered
    (N : NFA)
    (hN : N.alphabet.Nodup)
    (accepts : List Int)
    (haccepts : ∀ q, q ∈ accepts ↔ ∃ s ∈ N.determinize.accepts, N.determinize.HasNumber s q)
    (edges : List Edge)
    (hedges : ∀ e, e ∈ edges ↔ N.determinize.IsNumberEdge e) :
    DFA.IsRecovered N.determinize
      (build N.determinize.states.length N.determinize.alphabet 0 accepts edges) := by
  have hcarries := carries_numberSet (isNumbered_build haccepts hedges hN)
  refine
    { states_eq := ?_
      accepts_eq := ?_
      edges_eq := ?_
      isImage := hcarries.isImage_determinize
      dangling_eq := dangling_build_numbers haccepts hedges }
  · calc
      (build N.determinize.states.length N.determinize.alphabet 0 accepts edges).determinize.states
        = N.determinize.states.map N.determinize.numberSet := hcarries.states_eq
      _ = (N.determinize.states.map N.determinize.number).map StateSet.singleton := by
          rw [List.map_map]
          exact List.map_congr_left fun s hs => numberSet_of_mem_states hs
      _ = (List.range N.determinize.states.length).map fun i : Nat => StateSet.singleton i := by
          rw [DFA.map_number_states (nodup_states N), List.map_map]
          rfl
  · rw [hcarries.isImage_determinize.accepts_eq]
    refine List.map_congr_left fun s hs => ?_
    exact numberSet_of_mem_states (mem_accepts_iff.mp hs).1
  · rw [hcarries.edges_eq]
    refine List.map_congr_left fun m hm => ?_
    obtain ⟨hsource, -, -, htarget⟩ := mem_edges_iff.mp hm
    rw [Move.image, numberSet_of_mem_states hsource,
      DFA.numberSet_of_ne_empty htarget]

section Listed

/-- The numbers of the accepting states, listed in order. -/
theorem mem_map_number_accepts_iff
    {q : Int} :
    q ∈ N.determinize.accepts.map N.determinize.number
      ↔
    ∃ s ∈ N.determinize.accepts, N.determinize.HasNumber s q := by
  rw [List.mem_map]
  refine exists_congr fun s => and_congr_right fun hs => ?_
  rw [DFA.hasNumber_iff (nodup_states N), and_iff_right (mem_accepts_iff.mp hs).1, eq_comm]

/-- The edges between numbers, listed in the order of the edges between states. -/
theorem mem_map_numberEdge_iff
    {e : Edge} :
    e ∈ N.determinize.edges.map N.determinize.numberEdge ↔ N.determinize.IsNumberEdge e := by
  rw [List.mem_map]
  constructor
  · rintro ⟨m, hm, rfl⟩
    obtain ⟨hsource, hsymbol, htarget, hne⟩ := mem_edges_iff.mp hm
    have hstate : m.target ∈ N.determinize.states := by
      rw [htarget] at hne ⊢
      exact move_mem_states hsource hsymbol hne
    exact ⟨m.source, m.target, DFA.hasNumber_number hsource, DFA.hasNumber_number hstate, hm⟩
  · rintro ⟨s, t, hs, ht, hedge⟩
    rw [DFA.hasNumber_iff (nodup_states N)] at hs ht
    refine ⟨_, hedge, ?_⟩
    rw [DFA.numberEdge, ← hs.2, ← ht.2]

end Listed

/-- Two numbered states, of which the second is a set of two. -/
theorem determinize_numbered_pair :
    ∃ N : NFA,
      N = build 3 ["a", "b"] 0 [2] [⟨0, "a", 1⟩, ⟨0, "a", 2⟩, ⟨1, "b", 0⟩] ∧
      N.determinize.states.map (fun s => s.toList) = [[0], [1, 2]] ∧
      DFA.IsRecovered N.determinize (build 2 ["a", "b"] 0 [1] [⟨0, "a", 1⟩, ⟨1, "b", 0⟩]) := by
  let N := build 3 ["a", "b"] 0 [2] [⟨0, "a", 1⟩, ⟨0, "a", 2⟩, ⟨1, "b", 0⟩]
  have hN : N.alphabet.Nodup := by
    decide +kernel
  have hstates : N.determinize.states.map (fun s => s.toList) = [[0], [1, 2]] := by
    decide +kernel
  have haccepts : N.determinize.accepts.map N.determinize.number = [1] := by
    decide +kernel
  have hedges :
      N.determinize.edges.map N.determinize.numberEdge = [⟨0, "a", 1⟩, ⟨1, "b", 0⟩] := by
    decide +kernel
  have hrecovered := determinize_numbered N hN [1]
    (fun _ => haccepts ▸ mem_map_number_accepts_iff) [⟨0, "a", 1⟩, ⟨1, "b", 0⟩]
    (fun _ => hedges ▸ mem_map_numberEdge_iff)
  have hlength : N.determinize.states.length = 2 := by
    simpa using congrArg List.length hstates
  rw [hlength] at hrecovered
  exact ⟨N, rfl, hstates, hrecovered⟩

end NFA
end Determinization
