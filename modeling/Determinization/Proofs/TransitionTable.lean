import Determinization.Proofs.Ascending
import Determinization.Proofs.ReachablePart
import Determinization.Proofs.Reports

/-!
# The transition table of a nondeterministic automaton

The table has a row for each state of the declared range and, behind these, one for each stray: a
state out of the range that has transitions of its own.  A state without a row therefore has no
targets.  The numeral of a state begins with neither mark, so the first cell of a row tells the
state and its marks, and the other cells tell the targets.

The table does not show how large the declared range is, for the strays may continue it, nor whether
a state without a row accepts.  If no state dangles, there are no strays, and nothing of this is
hidden.

**Results.**
* `showsTransitions`: which rows there are, and which one is marked as the start.
* `tableRow_inj` and `table_inj`: what a row and a table tell.
* `transitionTable_faithful`: automata with the same table have the same targets, and if no state
  dangles, the same determinization.
-/

namespace Determinization

/-- The row at a place of the table begins with the arrow of a start state. -/
def TableText.HasArrowAt
    (t : TableText)
    (i : Nat) :
    Prop :=
  ∃ name cells, t.rows[i]? = some (name :: cells) ∧ name.toList.head? = some '→'

/-- Neither a digit nor a sign is a mark. -/
theorem isUnmarked_numeral
    (q : Int) :
    IsUnmarked (Text.numeral q) := by
  have hmark : ∀ c, ¬ Text.IsNumeralChar c → (Text.numeral q).toList.head? ≠ some c := by
    intro c hc hhead
    exact hc (Text.isNumeralChar_of_mem_numeral (List.mem_of_head? hhead))
  have hnot : ¬ Text.IsNumeralChar '→' ∧ ¬ Text.IsNumeralChar '*' := by
    constructor <;> rintro (h | h) <;> exact absurd h (by decide)
  exact ⟨hmark _ hnot.1, hmark _ hnot.2⟩

namespace NFA

variable {M N : NFA}

/-- The states out of range that have a row of transitions, in ascending order. -/
def strays (N : NFA) : List Int :=
  N.sources.filter fun q => !N.inRange q

/--
The table has a row for each of the declared states and for each of the strays, in this order, and
no others.  One row at most is marked as that of the start state.
-/
structure ShowsTransitions
    (N : NFA)
    (declared stray : List Int) :
    Prop where
  rows_eq : N.table.rows = (declared ++ stray).map N.tableRow
  ascending_declared : declared.Pairwise (· < ·)
  mem_declared_iff : ∀ q, q ∈ declared ↔ 0 ≤ q ∧ q < N.numStates
  ascending_stray : stray.Pairwise (· < ·)
  mem_stray_iff : ∀ q, q ∈ stray ↔ q ∈ N.transitions ∧ ¬ (0 ≤ q ∧ q < N.numStates)
  nodup : (declared ++ stray).Nodup
  nodup_names : (N.table.rows.map List.head?).Nodup
  complete : ∀ q a, N.targets q a ≠ ∅ → q ∈ declared ++ stray
  hasArrow_iff :
    (∃ i, N.table.HasArrowAt i)
      ↔
    (0 ≤ N.start ∧ N.start < N.numStates) ∨ N.start ∈ N.transitions
  hasArrow_unique : ∀ i j, N.table.HasArrowAt i → N.table.HasArrowAt j → i = j

section States

theorem mem_declaredStates_iff
    {q : Int} :
    q ∈ N.declaredStates ↔ 0 ≤ q ∧ q < N.numStates := by
  simp only [declaredStates, List.mem_map, List.mem_range, Int.ofNat_eq_natCast]
  constructor
  · rintro ⟨n, hn, rfl⟩
    omega
  · rintro ⟨hlow, hhigh⟩
    exact ⟨q.toNat, by omega, by omega⟩

theorem pairwise_lt_declaredStates
    (N : NFA) :
    N.declaredStates.Pairwise (· < ·) := by
  rw [declaredStates, List.pairwise_map]
  exact List.pairwise_lt_range.imp Int.ofNat_lt.mpr

theorem mem_strays_iff
    {q : Int} :
    q ∈ N.strays ↔ q ∈ N.transitions ∧ ¬ (0 ≤ q ∧ q < N.numStates) := by
  simp only [strays, sources_eq_keys, List.mem_filter, Std.ExtTreeMap.mem_keys, inRange,
    Bool.not_eq_true', ← Bool.not_eq_true, Bool.and_eq_true, decide_eq_true_eq]

theorem pairwise_lt_strays
    (N : NFA) :
    N.strays.Pairwise (· < ·) := by
  rw [strays, sources_eq_keys]
  exact (Std.ExtTreeMap.ordered_keys.imp Std.compare_eq_lt.mp).filter _

theorem mem_tableStates_iff
    {q : Int} :
    q ∈ N.tableStates ↔ (0 ≤ q ∧ q < N.numStates) ∨ q ∈ N.transitions := by
  have hstates : N.tableStates = N.declaredStates ++ N.strays := rfl
  rw [hstates, List.mem_append, mem_declaredStates_iff, mem_strays_iff]
  tauto

theorem nodup_tableStates
    (N : NFA) :
    N.tableStates.Nodup := by
  refine List.nodup_append.mpr
    ⟨(pairwise_lt_declaredStates N).nodup, (pairwise_lt_strays N).nodup, ?_⟩
  rintro p hp q hq rfl
  exact (mem_strays_iff.mp hq).2 (mem_declaredStates_iff.mp hp)

/-- A state with targets has a row of transitions, and so a row of the table. -/
theorem mem_tableStates_of_targets_ne_empty
    {q : Int}
    {a : Symbol}
    (h : N.targets q a ≠ ∅) :
    q ∈ N.tableStates := by
  refine mem_tableStates_iff.mpr (Or.inr ?_)
  by_contra hrow
  exact h (by simp [targets_eq, Std.ExtTreeMap.getElem?_eq_none hrow])

end States

section Rows

/-- A row of a table determines its state, the marks of the state, and its targets. -/
theorem tableRow_inj
    (halphabet : M.alphabet = N.alphabet)
    {p q : Int}
    (h : M.tableRow p = N.tableRow q) :
    p = q ∧
      (p = M.start ↔ q = N.start) ∧
      (p ∈ M.accepts ↔ q ∈ N.accepts) ∧
      ∀ a ∈ M.alphabet, M.targets p a = N.targets q a := by
  obtain ⟨hname, hcells⟩ := List.cons.inj h
  obtain ⟨hnumeral, hstart, haccepting⟩ :=
    markedName_inj (isUnmarked_numeral p) (isUnmarked_numeral q) hname
  rw [← halphabet] at hcells
  exact
    ⟨Text.numeral_injective hnumeral,
      decide_eq_decide.mp hstart,
      decide_eq_decide.mp haccepting,
      fun a ha => targetCell_injective (List.map_inj_left.mp hcells a ha)⟩

/-- No two rows have the same first cell. -/
theorem nodup_names
    (N : NFA) :
    (N.table.rows.map List.head?).Nodup := by
  rw [table, List.map_map]
  refine (nodup_tableStates N).map fun p q hpq => ?_
  obtain ⟨hnumeral, -⟩ :=
    markedName_inj (isUnmarked_numeral p) (isUnmarked_numeral q) (Option.some.inj hpq)
  exact Text.numeral_injective hnumeral

/-- The arrow stands where the row of the start state is. -/
theorem hasArrowAt_iff
    {i : Nat} :
    N.table.HasArrowAt i ↔ N.tableStates[i]? = some N.start := by
  have hrows : N.table.rows = N.tableStates.map N.tableRow := rfl
  simp only [TableText.HasArrowAt, hrows, List.getElem?_map, Option.map_eq_some_iff]
  constructor
  · rintro ⟨name, cells, ⟨q, hq, hrow⟩, harrow⟩
    obtain ⟨rfl, -⟩ := List.cons.inj hrow
    rw [head?_markedName_iff (isUnmarked_numeral q), decide_eq_true_eq] at harrow
    rw [hq, harrow]
  · intro hstart
    refine ⟨_, _, ⟨N.start, hstart, rfl⟩, ?_⟩
    rw [head?_markedName_iff (isUnmarked_numeral _), decide_eq_true_eq]

theorem exists_hasArrowAt_iff :
    (∃ i, N.table.HasArrowAt i)
      ↔
    (0 ≤ N.start ∧ N.start < N.numStates) ∨ N.start ∈ N.transitions := by
  rw [← mem_tableStates_iff, List.mem_iff_getElem?]
  exact exists_congr fun _ => hasArrowAt_iff

theorem hasArrowAt_unique
    {i j : Nat}
    (hi : N.table.HasArrowAt i)
    (hj : N.table.HasArrowAt j) :
    i = j := by
  rw [hasArrowAt_iff] at hi hj
  obtain ⟨hlt, -⟩ := List.getElem?_eq_some_iff.mp hi
  exact (List.getElem?_inj hlt (nodup_tableStates N)).mp (hi.trans hj.symm)

theorem showsTransitions
    (N : NFA) :
    N.ShowsTransitions N.declaredStates N.strays where
  rows_eq := rfl
  ascending_declared := pairwise_lt_declaredStates N
  mem_declared_iff _ := mem_declaredStates_iff
  ascending_stray := pairwise_lt_strays N
  mem_stray_iff _ := mem_strays_iff
  nodup := nodup_tableStates N
  nodup_names := nodup_names N
  complete _ _ := mem_tableStates_of_targets_ne_empty
  hasArrow_iff := exists_hasArrowAt_iff
  hasArrow_unique _ _ := hasArrowAt_unique

end Rows

section Faithful

/-- A table determines the alphabet, the states with a row, their marks, and their targets. -/
theorem table_inj
    (h : M.table = N.table) :
    M.alphabet = N.alphabet ∧
      M.tableStates = N.tableStates ∧
      ∀ q ∈ M.tableStates,
        (q = M.start ↔ q = N.start) ∧
        (q ∈ M.accepts ↔ q ∈ N.accepts) ∧
        ∀ a ∈ M.alphabet, M.targets q a = N.targets q a := by
  obtain ⟨hheaders, hrows⟩ := TableText.mk.inj h
  have halphabet : M.alphabet = N.alphabet := (List.cons.inj hheaders).2
  have hstates : M.tableStates = N.tableStates :=
    Text.map_inj_of_mem (fun p _ q _ hrow => (tableRow_inj halphabet hrow).1) hrows
  refine ⟨halphabet, hstates, fun q hq => ?_⟩
  rw [← hstates] at hrows
  exact (tableRow_inj halphabet (List.map_inj_left.mp hrows q hq)).2

/-- The targets of all states are seen in the table, since a state without a row has none. -/
theorem targets_eq_of_table_eq
    (h : M.table = N.table)
    (q : Int)
    {a : Symbol}
    (ha : a ∈ M.alphabet) :
    M.targets q a = N.targets q a := by
  obtain ⟨-, hstates, hrows⟩ := table_inj h
  by_cases hq : q ∈ M.tableStates
  · exact (hrows q hq).2.2 a ha
  · have hM : M.targets q a = ∅ :=
      by_contra fun hne => hq (mem_tableStates_of_targets_ne_empty hne)
    have hN : N.targets q a = ∅ :=
      by_contra fun hne => hq (hstates ▸ mem_tableStates_of_targets_ne_empty hne)
    rw [hM, hN]

/-- If no state dangles, all mentioned states are in range. -/
theorem inRange_of_dangling_eq_empty
    (h : N.dangling = ∅)
    {q : Int}
    (hq : q ∈ N.mentioned) :
    0 ≤ q ∧ q < N.numStates := by
  by_contra hout
  have hdangling : q ∈ N.dangling := mem_dangling_iff.mpr ⟨hq, hout⟩
  simp [h] at hdangling

/-- If no state dangles, the rows are those of the declared range. -/
theorem mem_tableStates_iff_of_dangling_eq_empty
    (h : N.dangling = ∅)
    {q : Int} :
    q ∈ N.tableStates ↔ 0 ≤ q ∧ q < N.numStates := by
  rw [mem_tableStates_iff, or_iff_left_of_imp]
  intro hrow
  exact inRange_of_dangling_eq_empty h (mem_mentioned_iff.mpr (Or.inr (Or.inr (Or.inl hrow))))

/-- A table without dangling states shows the declared range, the start state and the accepting
states. -/
theorem parts_eq_of_table_eq
    (h : M.table = N.table)
    (hM : M.dangling = ∅)
    (hN : N.dangling = ∅) :
    M.numStates = N.numStates ∧ M.start = N.start ∧ M.accepts = N.accepts := by
  obtain ⟨-, hstates, hrows⟩ := table_inj h
  have hranges : ∀ q, (0 ≤ q ∧ q < M.numStates) ↔ 0 ≤ q ∧ q < N.numStates := by
    intro q
    rw [← mem_tableStates_iff_of_dangling_eq_empty hM, hstates,
      mem_tableStates_iff_of_dangling_eq_empty hN]
  have hstart := inRange_of_dangling_eq_empty hM (start_mem_mentioned M)
  have hrow : ∀ q, 0 ≤ q ∧ q < M.numStates → q ∈ M.tableStates :=
    fun q => (mem_tableStates_iff_of_dangling_eq_empty hM).mpr
  refine ⟨?_, ((hrows _ (hrow _ hstart)).1.mp rfl), StateSet.ext_mem fun q => ?_⟩
  · have hlow := hranges M.numStates
    have hhigh := hranges N.numStates
    have hboth := (hranges M.start).mp hstart
    omega
  · have haccepting : ∀ N : NFA, q ∈ N.accepts → q ∈ N.mentioned :=
      fun N hq => mem_mentioned_iff.mpr (Or.inr (Or.inl hq))
    constructor
    · intro hq
      have hin := inRange_of_dangling_eq_empty hM (haccepting M hq)
      exact (hrows q (hrow q hin)).2.1.mp hq
    · intro hq
      have hin := inRange_of_dangling_eq_empty hN (haccepting N hq)
      exact (hrows q (hrow q ((hranges q).mpr hin))).2.1.mpr hq

/--
The table of an automaton shows all its transitions.  Automata with the same table have the same
alphabet and the same targets by its symbols; if moreover no state of theirs dangles, they agree in
everything that the table is about, and have the same determinization.
-/
theorem transitionTable_faithful :
    (∀ N : NFA, ∃ declared stray, N.ShowsTransitions declared stray)
      ∧
    ∀ M N : NFA,
      M.table = N.table →
      M.alphabet = N.alphabet ∧
        (∀ q, ∀ a ∈ M.alphabet, M.targets q a = N.targets q a) ∧
        (M.dangling = ∅ → N.dangling = ∅ →
          M.numStates = N.numStates ∧
            M.start = N.start ∧
            M.accepts = N.accepts ∧
            M.determinize = N.determinize) := by
  refine ⟨fun N => ⟨_, _, showsTransitions N⟩, fun M N h => ?_⟩
  have halphabet := (table_inj h).1
  have htargets : ∀ q, ∀ a ∈ M.alphabet, M.targets q a = N.targets q a :=
    fun q _ ha => targets_eq_of_table_eq h q ha
  refine ⟨halphabet, htargets, fun hM hN => ?_⟩
  obtain ⟨hnumber, hstart, haccepts⟩ := parts_eq_of_table_eq h hM hN
  refine ⟨hnumber, hstart, haccepts, (determinize_eq_of_agree M N ?_ ?_ ?_ ?_).symm⟩
  · exact halphabet.symm
  · exact hstart.symm
  · exact fun q _ => htargets q
  · exact fun q _ => by rw [haccepts]

/-- Two automata that differ in an edge by a symbol without a column. -/
theorem transitionTable_faithful_foreign_symbol :
    ∃ M N : NFA,
      M = build 2 ["a"] 0 [1] [⟨0, "a", 1⟩, ⟨0, "a", 0⟩] ∧
      N = build 2 ["a"] 0 [1] [⟨0, "a", 1⟩, ⟨0, "a", 0⟩, ⟨1, "b", 0⟩] ∧
      M ≠ N ∧
      M.table = ⟨["состояние", "a"], [["→0", "\x7b0,1\x7d"], ["*1", "-"]]⟩ ∧
      M.table = N.table ∧
      M.dangling = ∅ ∧
      N.dangling = ∅ ∧
      M.determinize = N.determinize := by
  obtain ⟨M, hM⟩ : ∃ M, M = build 2 ["a"] 0 [1] [⟨0, "a", 1⟩, ⟨0, "a", 0⟩] := ⟨_, rfl⟩
  obtain ⟨N, hN⟩ : ∃ N, N = build 2 ["a"] 0 [1] [⟨0, "a", 1⟩, ⟨0, "a", 0⟩, ⟨1, "b", 0⟩] :=
    ⟨_, rfl⟩
  have hne : M ≠ N := by
    rw [hM, hN]
    decide +kernel
  have htable : M.table = ⟨["состояние", "a"], [["→0", "\x7b0,1\x7d"], ["*1", "-"]]⟩ := by
    rw [hM]
    decide +kernel
  have hsources : N.sources = [0, 1] := by
    rw [sources_eq_keys, hN]
    decide +kernel
  have hsame : M.table = N.table := by
    rw [htable, table, tableStates, hsources, hN]
    decide +kernel
  have hdanglingM : M.dangling = ∅ := by
    rw [hM]
    decide +kernel
  have hdanglingN : N.dangling = ∅ := by
    rw [hN]
    decide +kernel
  obtain ⟨-, -, hfaithful⟩ := transitionTable_faithful.2 M N hsame
  exact ⟨M, N, hM, hN, hne, htable, hsame, hdanglingM, hdanglingN,
    (hfaithful hdanglingM hdanglingN).2.2.2⟩

end Faithful

end NFA

end Determinization
