import Determinization.Proofs.Build
import Determinization.Proofs.FirstOccurrences
import Determinization.Proofs.Moves

/-!
# Automata as sets of edges

An automaton that is built from a list of edges encodes the set of these edges.  Neither their order
nor their repetitions are kept, and nothing else is lost: the targets are the edges, and a compact
map has no room for anything besides its targets.  Of the alphabet, the first occurrence of each
symbol is kept.

**Results.**
* `ofEdges_eq_ofEdges_iff`: transition maps are equal if and only if the sets of their edges are.
* `mem_mentioned_build_iff`: a built automaton mentions its start, its accepting states and the ends
  of its edges.
* `build_faithful`: what a built automaton consists of, and when two of them are equal.
-/

namespace Determinization

/-- The symbols are those of a list, each once, in the order of their first occurrences there. -/
structure AreFirstOccurrences (symbols all : List Symbol) : Prop where
  mem_iff : ∀ a, a ∈ symbols ↔ a ∈ all
  nodup : symbols.Nodup
  ordered : symbols.Pairwise fun a b => all.idxOf a < all.idxOf b

/--
The automaton encodes the edges.  Its rows and target sets hold the edges and are not empty, and the
states that dangle are among its start, its accepting states and the ends of its edges.
-/
structure NFA.Encodes
    (N : NFA)
    (numStates : Int)
    (alphabet : List Symbol)
    (start : Int)
    (accepts : List Int)
    (edges : List Edge) :
    Prop where
  numStates_eq : N.numStates = numStates
  start_eq : N.start = start
  mem_accepts_iff : ∀ q, q ∈ N.accepts ↔ q ∈ accepts
  alphabet : AreFirstOccurrences N.alphabet alphabet
  mem_targets_iff : ∀ q a p, p ∈ N.targets q a ↔ ⟨q, a, p⟩ ∈ edges
  row_ne_empty : ∀ (q : Int) (row : TargetRow), N.transitions[q]? = some row → row ≠ ∅
  targets_ne_empty :
    ∀ (q : Int) (row : TargetRow) (a : Symbol) (targets : StateSet),
      N.transitions[q]? = some row → row[a]? = some targets → targets ≠ ∅
  mem_dangling_iff :
    ∀ q, q ∈ N.dangling
      ↔
    (q = start ∨ q ∈ accepts ∨ ∃ e ∈ edges, q = e.source ∨ q = e.target) ∧
      ¬ (0 ≤ q ∧ q < numStates)

theorem areFirstOccurrences_eraseDups
    (symbols : List Symbol) :
    AreFirstOccurrences symbols.eraseDups symbols where
  mem_iff _ := List.mem_eraseDups
  nodup := nodup_eraseDups symbols
  ordered := pairwise_idxOf_eraseDups symbols

/-- Transition maps are built alike if and only if they are built from the same edges. -/
theorem TransitionMap.ofEdges_eq_ofEdges_iff
    {edges others : List Edge} :
    ofEdges edges = ofEdges others ↔ ∀ e, e ∈ edges ↔ e ∈ others := by
  constructor
  · rintro h ⟨q, a, p⟩
    rw [← mem_targets_ofEdges_iff, h, mem_targets_ofEdges_iff]
  · intro h
    refine (isCompact_ofEdges edges).eq_of_targets_eq (isCompact_ofEdges others) fun q a => ?_
    refine StateSet.ext_mem fun p => ?_
    rw [mem_targets_ofEdges_iff, h, mem_targets_ofEdges_iff]

namespace NFA

variable {numStates start : Int} {alphabet : List Symbol} {accepts : List Int}
  {edges others : List Edge}

/-- An automaton that is built from edges mentions its start, its accepting states and the ends of
its edges. -/
theorem mem_mentioned_build_iff
    {q : Int} :
    q ∈ (build numStates alphabet start accepts edges).mentioned
      ↔
    q = start ∨ q ∈ accepts ∨ ∃ e ∈ edges, q = e.source ∨ q = e.target := by
  have hcompact :
      TransitionMap.IsCompact (build numStates alphabet start accepts edges).transitions :=
    TransitionMap.isCompact_ofEdges edges
  rw [mem_mentioned_iff]
  refine or_congr Iff.rfl (or_congr (by simp [build, assemble]) ?_)
  constructor
  · rintro (hrow | ⟨p, a, htarget⟩)
    · obtain ⟨a, ha⟩ := hcompact.exists_symbol hrow
      obtain ⟨p, hp⟩ := hcompact.exists_target ha
      exact ⟨⟨q, a, p⟩, mem_targets_build_iff.mp hp, Or.inl rfl⟩
    · exact ⟨⟨p, a, q⟩, mem_targets_build_iff.mp htarget, Or.inr rfl⟩
  · rintro ⟨e, he, rfl | rfl⟩
    · left
      by_contra hnone
      have htarget :
          e.target ∈ (build numStates alphabet start accepts edges).targets e.source e.symbol :=
        mem_targets_build_iff.mpr he
      simp [targets_eq, Std.ExtTreeMap.getElem?_eq_none hnone] at htarget
    · exact Or.inr ⟨e.source, e.symbol, mem_targets_build_iff.mpr he⟩

theorem build_encodes
    (numStates : Int)
    (alphabet : List Symbol)
    (start : Int)
    (accepts : List Int)
    (edges : List Edge) :
    (build numStates alphabet start accepts edges).Encodes
      numStates alphabet start accepts edges := by
  have hcompact := TransitionMap.isCompact_ofEdges edges
  refine
    { numStates_eq := rfl
      start_eq := rfl
      mem_accepts_iff := fun q => StateSet.mem_ofList
      alphabet := areFirstOccurrences_eraseDups alphabet
      mem_targets_iff := fun q a p => mem_targets_build_iff
      row_ne_empty := fun q row hrow hempty => ?_
      targets_ne_empty := fun q row a targets hrow htargets hempty => ?_
      mem_dangling_iff := fun q => ?_ }
  · exact hcompact.row_ne_empty q (hempty ▸ hrow)
  · refine hcompact.targets_ne_empty q a ?_
    have hrow' : (TransitionMap.ofEdges edges)[q]? = some row := hrow
    rw [hrow', Option.getD_some, htargets, hempty]
  · rw [NFA.mem_dangling_iff, mem_mentioned_build_iff]
    rfl

/-- Building keeps the set of the edges and forgets how they are listed. -/
theorem build_eq_build_iff :
    build numStates alphabet start accepts edges = build numStates alphabet start accepts others
      ↔
    ∀ e, e ∈ edges ↔ e ∈ others := by
  rw [← TransitionMap.ofEdges_eq_ofEdges_iff]
  constructor
  · exact fun h => congrArg NFA.transitions h
  · intro h
    rw [build, build, h]

/--
A built automaton encodes its edges, and automata that are built from the same parts but for the
edges are equal if and only if their lists of edges have the same members.
-/
theorem build_faithful
    (numStates : Int)
    (alphabet : List Symbol)
    (start : Int)
    (accepts : List Int)
    (edges : List Edge) :
    (build numStates alphabet start accepts edges).Encodes
        numStates alphabet start accepts edges ∧
      ∀ others,
        build numStates alphabet start accepts edges
            = build numStates alphabet start accepts others
          ↔
        ∀ e, e ∈ edges ↔ e ∈ others :=
  ⟨build_encodes numStates alphabet start accepts edges, fun _ => build_eq_build_iff⟩

end NFA

end Determinization
