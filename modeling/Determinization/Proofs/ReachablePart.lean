import Determinization.Proofs.Simulation

/-!
# The reachable part

The construction looks at the targets of reachable states by symbols of the alphabet, and at which
reachable states accept.  Whatever else an automaton holds is out of its sight: the declared
number of states, unreachable states, transitions by other symbols, empty rows and empty target
sets.

**Results.** `determinize_eq_of_agree`: automata that agree on the reachable part of one of them have
the same determinization.
-/

namespace Determinization
namespace NFA

/-- The state is reached from the start state through targets by symbols of the alphabet. -/
inductive Reachable (N : NFA) : Int → Prop
  | start : Reachable N N.start
  | step {q p : Int} {a : Symbol} :
      Reachable N q →
      a ∈ N.alphabet →
      p ∈ N.targets q a →
      Reachable N p

variable {N M : NFA}

/-- The moves of a set of reachable states are reachable. -/
theorem reachable_of_mem_move
    {s : StateSet}
    {a : Symbol}
    (hs : ∀ q ∈ s, N.Reachable q)
    (ha : a ∈ N.alphabet) :
    ∀ p ∈ N.move s a, N.Reachable p := by
  intro p hp
  obtain ⟨q, hq, hp⟩ := mem_move_iff.mp hp
  exact .step (hs q hq) ha hp

theorem reachable_of_mem_startSet :
    ∀ q ∈ N.startSet, N.Reachable q := by
  intro q hq
  rw [StateSet.mem_singleton.mp hq]
  exact .start

/-- Automata with the same targets of all members of a set have the same move of the set. -/
theorem move_congr
    {s : StateSet}
    {a : Symbol}
    (h : ∀ q ∈ s, N.targets q a = M.targets q a) :
    M.move s a = N.move s a := by
  refine StateSet.ext_mem fun p => ?_
  rw [mem_move_iff, mem_move_iff]
  refine exists_congr fun q => and_congr_right fun hq => ?_
  rw [h q hq]

theorem isAccepting_congr
    {s : StateSet}
    (h : ∀ q ∈ s, q ∈ N.accepts ↔ q ∈ M.accepts) :
    M.isAccepting s = N.isAccepting s := by
  rw [Bool.eq_iff_iff, isAccepting, isAccepting, StateSet.meets_iff, StateSet.meets_iff]
  exact exists_congr fun q => and_congr_right fun hq => (h q hq).symm

/--
Automata with the same alphabet and start state that agree on the targets of the states reachable
in the first, by symbols of the alphabet, and on which of these states accept, have the same
determinization.
-/
theorem determinize_eq_of_agree
    (N M : NFA)
    (halphabet : M.alphabet = N.alphabet)
    (hstart : M.start = N.start)
    (htargets : ∀ q, N.Reachable q → ∀ a ∈ N.alphabet, N.targets q a = M.targets q a)
    (haccepts : ∀ q, N.Reachable q → (q ∈ N.accepts ↔ q ∈ M.accepts)) :
    M.determinize = N.determinize := by
  have hcarries : Carries id (fun s => ∀ q ∈ s, N.Reachable q) N M :=
    { alphabet_eq := halphabet
      startSet_eq := by rw [startSet, startSet, hstart, id]
      empty_eq := rfl
      start := reachable_of_mem_startSet
      empty := by simp
      closed := fun s hs a ha => reachable_of_mem_move hs ha
      move_eq := fun s hs a ha => move_congr fun q hq => htargets q (hs q hq) a ha
      isAccepting_eq := fun s hs => isAccepting_congr fun q hq => haccepts q (hs q hq)
      injective := fun s t _ _ h => h }
  exact hcarries.isImage_determinize.eq

/--
Two automata whose one visible edge leads from 0 to 1.  The second also has another number of states,
an edge by a foreign symbol, edges from unreachable states, an empty row and an empty target set.
-/
theorem determinize_eq_of_hidden_parts :
    ∃ N M : NFA,
      N = build 2 ["a"] 0 [1] [⟨0, "a", 1⟩] ∧
      M.numStates = -3 ∧
      M.transitions
        =
      ((TransitionMap.ofEdges [⟨0, "a", 1⟩, ⟨0, "b", 5⟩, ⟨5, "a", 0⟩, ⟨7, "a", 1⟩]).insert 8
        ∅).insert 1 (Std.ExtTreeMap.ofList [("a", ∅)]) ∧
      M.accepts = StateSet.ofList [1, 5, 7] ∧
      M.determinize = N.determinize := by
  let N := build 2 ["a"] 0 [1] [⟨0, "a", 1⟩]
  let M : NFA :=
    { numStates := -3
      alphabet := ["a"]
      transitions :=
        ((TransitionMap.ofEdges [⟨0, "a", 1⟩, ⟨0, "b", 5⟩, ⟨5, "a", 0⟩, ⟨7, "a", 1⟩]).insert 8
          ∅).insert 1 (Std.ExtTreeMap.ofList [("a", ∅)])
      start := 0
      accepts := StateSet.ofList [1, 5, 7] }
  have hzero : N.targets 0 "a" = StateSet.singleton 1 := by
    decide +kernel
  have hone : N.targets 1 "a" = ∅ := by
    decide +kernel
  have hreachable : ∀ q, N.Reachable q → q = 0 ∨ q = 1 := by
    intro q hq
    induction hq with
    | start => exact Or.inl rfl
    | @step q p a _ ha hp ih =>
        obtain rfl : a = "a" := by
          simpa [N, build, assemble] using ha
        rcases ih with rfl | rfl
        · rw [hzero, StateSet.mem_singleton] at hp
          exact Or.inr hp
        · simp [hone] at hp
  have htargets : ∀ q, N.Reachable q → ∀ a ∈ N.alphabet, N.targets q a = M.targets q a := by
    intro q hq a ha
    obtain rfl : a = "a" := by
      simpa [N, build, assemble] using ha
    rcases hreachable q hq with rfl | rfl
    · decide +kernel
    · decide +kernel
  have haccepts : ∀ q, N.Reachable q → (q ∈ N.accepts ↔ q ∈ M.accepts) := by
    intro q hq
    rcases hreachable q hq with rfl | rfl
    · decide +kernel
    · decide +kernel
  exact ⟨N, M, rfl, rfl, rfl, rfl, determinize_eq_of_agree N M rfl rfl htargets haccepts⟩

end NFA

end Determinization
