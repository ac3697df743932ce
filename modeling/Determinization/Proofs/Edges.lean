import Mathlib.Data.Finset.Prod
import Mathlib.Data.Prod.Lex
import Determinization.Proofs.OrderedMap
import Determinization.Proofs.Reports

/-!
# The list of edges

The edges of a deterministic automaton are its steps to nonempty sets, read off row by row in the
order of the states.  A row without a state is never looked at and a state without a row has no
edges, so for any automaton, one made by hand included, the edges and the steps from its states are
the same.

In a determinization each row stands in the order of the alphabet.  An edge has a place there: that
of its source among the states, and that of its symbol in the alphabet.  The edges stand in the
lexicographic order of their places, hence there is one for each pair of a state and a symbol with a
nonempty move.

**Results.**
* `DFA.mem_edges_iff` and `DFA.nodup_edges`: the edges are the nonempty steps, none of them twice.
* `NFA.pairwise_place_edges` and `NFA.length_edges`: the order and the number of the edges.
* `edges_enumerate_steps` puts these together and counts the lines of the file and of the summary.
-/

namespace Determinization

namespace DFA

variable {D : DFA}

theorem mem_movesFrom_iff
    {s : StateSet}
    {m : Move} :
    m ∈ D.movesFrom s ↔ m.source = s ∧ m.target = D.step s m.symbol ∧ m.target ≠ ∅ := by
  simp only [movesFrom, List.mem_map, List.mem_filter]
  constructor
  · rintro ⟨⟨a, t⟩, ⟨hentry, hne⟩, rfl⟩
    have hget : (D.row s).get? a = some t := OrderedMap.get?_eq_some_iff.mpr hentry
    exact ⟨rfl, by simp [step, hget], by simpa using hne⟩
  · obtain ⟨source, a, t⟩ := m
    rintro ⟨rfl, hstep, hne⟩
    have hvalue : t = ((D.row source).get? a).getD ∅ := hstep
    have hget : (D.row source).get? a = some t := by
      cases hrow : (D.row source).get? a with
      | none => exact absurd (by rw [hvalue, hrow, Option.getD_none]) hne
      | some target => rw [hvalue, hrow, Option.getD_some]
    exact ⟨(a, t), ⟨OrderedMap.get?_eq_some_iff.mp hget, by simpa using hne⟩, rfl⟩

/-- A row has each symbol once, so no move from a state is repeated. -/
theorem nodup_movesFrom
    (D : DFA)
    (s : StateSet) :
    (D.movesFrom s).Nodup := by
  have hsymbols : ((D.movesFrom s).map Move.symbol).Sublist (D.row s).keys := by
    rw [movesFrom, List.map_map]
    exact List.filter_sublist.map Prod.fst
  exact ((D.row s).nodup_keys.sublist hsymbols).of_map Move.symbol

/-- The edges are the steps from the states to nonempty sets. -/
theorem mem_edges_iff
    {m : Move} :
    m ∈ D.edges
      ↔
    m.source ∈ D.states ∧ m.target = D.step m.source m.symbol ∧ m.target ≠ ∅ := by
  simp only [edges, List.mem_flatMap, mem_movesFrom_iff]
  constructor
  · rintro ⟨s, hs, rfl, hmove⟩
    exact ⟨hs, hmove⟩
  · rintro ⟨hs, hmove⟩
    exact ⟨m.source, hs, rfl, hmove⟩

/-- If no state is repeated, no edge is. -/
theorem nodup_edges
    (h : D.states.Nodup) :
    D.edges.Nodup := by
  rw [edges, List.nodup_flatMap]
  refine ⟨fun s _ => nodup_movesFrom D s, ?_⟩
  refine h.imp fun hst => List.disjoint_left.mpr fun m hs ht => hst ?_
  rw [← (mem_movesFrom_iff.mp hs).1, ← (mem_movesFrom_iff.mp ht).1]

end DFA

namespace NFA

variable {N : NFA}

/-- The place of a move: that of its source among the states of the determinization, and that of its
symbol in the alphabet. -/
def place
    (N : NFA)
    (m : Move) :
    Nat ×ₗ Nat :=
  toLex (N.determinize.states.idxOf m.source, N.alphabet.idxOf m.symbol)

/-- The pairs of a state of the determinization and a symbol by which it has a nonempty move. -/
def livePairs (N : NFA) : Finset (StateSet × Symbol) :=
  (N.determinize.states.toFinset ×ˢ N.alphabet.toFinset).filter fun pair =>
    N.move pair.1 pair.2 ≠ ∅

theorem mem_livePairs_iff
    {s : StateSet}
    {a : Symbol} :
    (s, a) ∈ N.livePairs ↔ s ∈ N.determinize.states ∧ a ∈ N.alphabet ∧ N.move s a ≠ ∅ := by
  simp [livePairs, and_assoc]

/-- The moves of a state stand in the order of the alphabet. -/
theorem pairwise_place_movesFrom
    {s : StateSet}
    (hs : s ∈ N.determinize.states) :
    (N.determinize.movesFrom s).Pairwise fun m n => N.place m < N.place n := by
  rw [movesFrom_determinize hs, List.pairwise_map]
  refine ((pairwise_idxOf_eraseDups N.alphabet).filter _).imp fun hplaces => ?_
  exact Prod.Lex.toLex_lt_toLex.mpr (Or.inr ⟨rfl, hplaces⟩)

/-- The edges stand in the order of their places. -/
theorem pairwise_place_edges
    (N : NFA) :
    N.determinize.edges.Pairwise fun m n => N.place m < N.place n := by
  rw [DFA.edges, List.pairwise_flatMap]
  refine ⟨fun s hs => pairwise_place_movesFrom hs, ?_⟩
  have hstates := pairwise_idxOf_eraseDups N.determinize.states
  rw [eraseDups_of_nodup (nodup_states N)] at hstates
  refine hstates.imp fun hplaces m hm n hn => ?_
  rw [← (DFA.mem_movesFrom_iff.mp hm).1, ← (DFA.mem_movesFrom_iff.mp hn).1] at hplaces
  exact Prod.Lex.toLex_lt_toLex.mpr (Or.inl hplaces)

/-- There are as many edges as pairs of a state and a symbol with a nonempty move. -/
theorem length_edges
    (N : NFA) :
    N.determinize.edges.length = N.livePairs.card := by
  have hnodup : (N.determinize.edges.map fun m => (m.source, m.symbol)).Nodup := by
    rw [List.Nodup, List.pairwise_map]
    refine (pairwise_place_edges N).imp fun hplaces hpairs => ?_
    obtain ⟨hsource, hsymbol⟩ := Prod.mk.inj hpairs
    rw [place, place, hsource, hsymbol] at hplaces
    exact lt_irrefl _ hplaces
  have hpairs : (N.determinize.edges.map fun m => (m.source, m.symbol)).toFinset = N.livePairs := by
    ext ⟨s, a⟩
    rw [List.mem_toFinset, List.mem_map, mem_livePairs_iff]
    constructor
    · rintro ⟨m, hm, hpair⟩
      obtain ⟨rfl, rfl⟩ := Prod.mk.inj hpair
      obtain ⟨hs, ha, htarget, hne⟩ := mem_edges_iff.mp hm
      exact ⟨hs, ha, htarget ▸ hne⟩
    · rintro ⟨hs, ha, hne⟩
      exact ⟨⟨s, a, N.move s a⟩, mem_edges_iff.mpr ⟨hs, ha, rfl, hne⟩, rfl⟩
  rw [← hpairs, List.toFinset_card_of_nodup hnodup, List.length_map]

/-- The file has four lines before those of the edges. -/
theorem length_fileLines
    (N : NFA) :
    N.determinize.fileLines.length = 4 + N.livePairs.card := by
  rw [← length_edges]
  simp only [DFA.fileLines, List.length_cons, List.length_map]
  omega

/-- The summary has four lines before those of the edges. -/
theorem length_summaryLines
    (N : NFA) :
    N.determinize.summaryLines.length = 4 + N.livePairs.card := by
  rw [← length_edges]
  simp only [DFA.summaryLines, List.length_cons, List.length_map]
  omega

end NFA

/--
The edges of any deterministic automaton are its nonempty steps, without repetitions if no state is
repeated.  In a determinization they stand in the order of source and symbol, and after the first
four lines the file and the summary have a line for each state and symbol with a nonempty move; if
the automaton was read, the two texts fall apart into these lines.
-/
theorem edges_enumerate_steps :
    (∀ D : DFA,
      D.states.Nodup →
      D.edges.Nodup ∧
        ∀ s a t, ⟨s, a, t⟩ ∈ D.edges ↔ s ∈ D.states ∧ t = D.step s a ∧ t ≠ ∅) ∧
    (∀ N : NFA,
      (N.determinize.edges.Pairwise fun m n => N.place m < N.place n) ∧
        (N.determinize.fileLines.drop 4).length = N.livePairs.card ∧
        (N.determinize.summaryLines.drop 4).length = N.livePairs.card) ∧
    ∀ lines N,
      Description.read lines = .ok N →
      Description.linesOf N.determinize.fileText.toList = N.determinize.fileLines ∧
        Description.linesOf N.determinize.summaryText.toList = N.determinize.summaryLines := by
  refine ⟨fun D hD => ?_, fun N => ?_, fun lines N hN => ?_⟩
  · exact ⟨DFA.nodup_edges hD, fun _ _ _ => DFA.mem_edges_iff⟩
  · refine ⟨NFA.pairwise_place_edges N, ?_, ?_⟩
    · rw [List.length_drop, NFA.length_fileLines, Nat.add_sub_cancel_left]
    · rw [List.length_drop, NFA.length_summaryLines, Nat.add_sub_cancel_left]
  · exact ⟨DFA.linesOf_fileText (NFA.hasTokenAlphabet_of_read hN).hasTokenSymbols,
      DFA.linesOf_summaryText (NFA.isLetter_of_mem_edges hN)⟩

/-- An automaton with a state without a row and a row without a state, and one that is read from a
description with a repeated symbol. -/
theorem edges_enumerate_steps_strayRow :
    ∃ (D : DFA) (N : NFA),
      D.states.Nodup ∧
      D.states = [StateSet.ofList [1], StateSet.ofList [0]] ∧
      D.transitions.keys = [StateSet.ofList [7], StateSet.ofList [0]] ∧
      D.edges.Nodup ∧
      ⟨StateSet.ofList [0], "b", StateSet.ofList [1]⟩ ∈ D.edges ∧
      ⟨StateSet.ofList [7], "a", StateSet.ofList [0]⟩ ∉ D.edges ∧
      Description.read ["2", "b a b", "0", "1", "0 a 1", "0 b 0"] = .ok N ∧
      (Description.linesOf N.determinize.fileText.toList).drop 4 = ["[0] b [0]", "[0] a [1]"] ∧
      N.livePairs.card = 2 := by
  let row : MoveRow := OrderedMap.ofList [("a", ∅), ("b", StateSet.ofList [1])]
  let stray : MoveRow := OrderedMap.ofList [("a", StateSet.ofList [0])]
  let D : DFA :=
    { states := [StateSet.ofList [1], StateSet.ofList [0]]
      alphabet := ["a", "b"]
      transitions := OrderedMap.ofList [(StateSet.ofList [7], stray), (StateSet.ofList [0], row)]
      start := StateSet.ofList [0]
      accepts := [] }
  let N := NFA.build 2 ["b", "a"] 0 [1] [⟨0, "a", 1⟩, ⟨0, "b", 0⟩]
  obtain ⟨hedges, hcount, hlines⟩ := edges_enumerate_steps
  have hnodup : D.states.Nodup := by
    decide +kernel
  have hread : Description.read ["2", "b a b", "0", "1", "0 a 1", "0 b 0"] = .ok N := by
    decide +kernel
  have hfile : N.determinize.fileLines.drop 4 = ["[0] b [0]", "[0] a [1]"] := by
    decide +kernel
  have hstep : StateSet.ofList [1] = D.step (StateSet.ofList [0]) "b" := by
    decide +kernel
  refine ⟨D, N, hnodup, rfl, by decide +kernel, (hedges D hnodup).1, ?_, ?_, hread, ?_, ?_⟩
  · exact ((hedges D hnodup).2 _ _ _).mpr ⟨by decide +kernel, hstep, by decide +kernel⟩
  · exact fun hmem => absurd (((hedges D hnodup).2 _ _ _).mp hmem).1 (by decide +kernel)
  · rw [(hlines _ N hread).1, hfile]
  · rw [← (hcount N).2.1, hfile]
    rfl

end Determinization
