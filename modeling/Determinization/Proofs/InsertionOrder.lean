import Determinization.Comparison
import Determinization.Description
import Determinization.Proofs.Ascending
import Determinization.Proofs.Fallible
import Determinization.Proofs.Moves
import Determinization.Proofs.OrderedMap

/-!
# Nothing shows the insertion order

The transitions of an automaton that is put together edge by edge stand in an order that depends on
the order of the edges.  A computation on such an automaton looks targets up, which goes by the keys;
it gathers the mentioned states, which are a set; and it sorts the sources.  None of these shows the
order, and hence nothing that is computed through them does: on an ordered automaton and on the same
automaton without its order, every computation has the same result.

**Results.**
* `OrderedTransitions.toMap_ofEdges`: the transitions that are put together edge by edge are, without
  their order, the transition map of the edges.
* `targets_forgetOrder`, `mentioned_forgetOrder` and `sources_forgetOrder`: the three ways to look at
  the transitions do not show their order.
* `determinize_forgetOrder`, `table_forgetOrder`, `run_forgetOrder` and the others: neither does any
  computation.
* `Description.map_forgetOrder_readOrdered`: reading with and without the order.
-/

namespace Determinization

namespace OrderedTransitions

variable {transitions others : OrderedTransitions}

/-- The row of a state in the map is its row without its order. -/
theorem getElem?_toMap
    (transitions : OrderedTransitions)
    (q : Int) :
    transitions.toMap[q]? = (transitions.get? q).map OrderedMap.forgetOrder := by
  rw [toMap, OrderedMap.getElem?_forgetOrder, OrderedMap.get?_mapValues]

theorem mem_toMap_iff
    {q : Int} :
    q ∈ transitions.toMap ↔ q ∈ transitions.keys := by
  rw [toMap, OrderedMap.mem_forgetOrder_iff, OrderedMap.keys_mapValues]

/-- Two stores have the same map if they list the same rows in some order, a row being taken without
the order of its entries. -/
theorem toMap_eq_iff_perm :
    transitions.toMap = others.toMap
      ↔
    (transitions.mapValues OrderedMap.forgetOrder).entries.Perm
      (others.mapValues OrderedMap.forgetOrder).entries :=
  OrderedMap.forgetOrder_eq_iff_perm

/-- A lookup of targets does not show the order. -/
theorem targets_toMap
    (transitions : OrderedTransitions)
    (q : Int)
    (a : Symbol) :
    transitions.toMap.targets q a = transitions.targets q a := by
  rw [TransitionMap.targets, targets, getElem?_toMap]
  cases transitions.get? q with
  | none => simp [OrderedMap.get?_empty]
  | some row => simp [OrderedMap.getElem?_forgetOrder]

/-- A store mentions its sources and its targets. -/
theorem mem_mentions_iff
    {p : Int} :
    p ∈ transitions.mentions
      ↔
    p ∈ transitions.keys ∨ ∃ q a, p ∈ transitions.targets q a := by
  constructor
  · intro hp
    obtain ⟨⟨q, row⟩, hrow, hp⟩ := List.mem_flatMap.mp hp
    rcases List.mem_cons.mp hp with rfl | hp
    · exact Or.inl (List.mem_map.mpr ⟨_, hrow, rfl⟩)
    · obtain ⟨s, hs, hp⟩ := List.mem_flatMap.mp hp
      obtain ⟨⟨a, _⟩, hentry, rfl⟩ := List.mem_map.mp hs
      refine Or.inr ⟨q, a, ?_⟩
      rw [targets, OrderedMap.get?_eq_some_iff.mpr hrow, Option.getD_some,
        OrderedMap.get?_eq_some_iff.mpr hentry, Option.getD_some]
      exact Std.ExtTreeSet.mem_toList.mp hp
  · rintro (hq | ⟨q, a, hp⟩)
    · obtain ⟨entry, hentry, rfl⟩ := List.mem_map.mp hq
      exact List.mem_flatMap.mpr ⟨entry, hentry, List.mem_cons_self⟩
    · rw [targets] at hp
      cases hrow : transitions.get? q with
      | none => simp [hrow, OrderedMap.get?_empty] at hp
      | some row =>
          cases htargets : row.get? a with
          | none => simp [hrow, htargets] at hp
          | some s =>
              have hs : p ∈ s.toList := by
                simpa [hrow, htargets, Std.ExtTreeSet.mem_toList] using hp
              have hvalue : s ∈ row.values :=
                List.mem_map.mpr ⟨_, OrderedMap.get?_eq_some_iff.mp htargets, rfl⟩
              refine List.mem_flatMap.mpr ⟨_, OrderedMap.get?_eq_some_iff.mp hrow, ?_⟩
              exact List.mem_cons_of_mem _ (List.mem_flatMap.mpr ⟨s, hvalue, hs⟩)

section Edges

/-- To add an edge and forget the order is to forget the order and add the edge. -/
theorem toMap_addEdge
    (transitions : OrderedTransitions)
    (edge : Edge) :
    (transitions.addEdge edge).toMap = transitions.toMap.addEdge edge := by
  refine Std.ExtTreeMap.ext_getElem? fun q => ?_
  rw [getElem?_toMap, addEdge, OrderedMap.get?_modify, TransitionMap.addEdge,
    Std.ExtTreeMap.getElem?_alter, getElem?_toMap, getElem?_toMap]
  by_cases hq : edge.source = q
  · subst hq
    cases transitions.get? edge.source with
    | none => simp [OrderedMap.forgetOrder_modify]
    | some row => simp [OrderedMap.forgetOrder_modify]
  · simp [hq]

/-- Edges that were added one after the other are, without their order, the map of the edges. -/
theorem toMap_ofEdges
    (edges : List Edge) :
    (ofEdges edges).toMap = TransitionMap.ofEdges edges := by
  have hfold : ∀ transitions : OrderedTransitions,
      (edges.foldl addEdge transitions).toMap
        =
      edges.foldl TransitionMap.addEdge transitions.toMap := by
    induction edges with
    | nil => exact fun _ => rfl
    | cons edge edges ih =>
        intro transitions
        rw [List.foldl_cons, ih, toMap_addEdge, List.foldl_cons]
  have hempty : toMap OrderedMap.empty = ∅ :=
    rfl
  rw [ofEdges, hfold, hempty, TransitionMap.ofEdges]

end Edges

end OrderedTransitions

namespace NFA

variable (N : OrderedNFA)

section Lookups

@[simp] theorem targets_forgetOrder
    (q : Int)
    (a : Symbol) :
    N.forgetOrder.targets q a = N.targets q a :=
  N.transitions.targets_toMap q a

/-- The mentioned states are a set, whatever the order of their rows. -/
@[simp] theorem mentioned_forgetOrder :
    N.forgetOrder.mentioned = N.mentioned := by
  refine StateSet.ext_mem fun q => ?_
  rw [mem_mentioned_iff]
  simp only [targets_forgetOrder, mentioned, StateSet.mem_ofList, List.mem_cons, List.mem_append,
    Std.ExtTreeSet.mem_toList]
  refine or_congr Iff.rfl (or_congr Iff.rfl ?_)
  exact (or_congr_left OrderedTransitions.mem_toMap_iff).trans
    OrderedTransitions.mem_mentions_iff.symm

/-- The sources are sorted, whatever the order of their rows. -/
@[simp] theorem sources_forgetOrder :
    N.forgetOrder.sources = N.sources :=
  (sources_of_listing N.transitions.nodup_keys fun _ => OrderedTransitions.mem_toMap_iff.symm).symm

end Lookups

section Construction

@[simp] theorem move_forgetOrder
    (s : StateSet)
    (a : Symbol) :
    N.forgetOrder.move s a = N.move s a := by
  simp only [move, targets_forgetOrder]

@[simp] theorem moveRow_forgetOrder
    (s : StateSet) :
    N.forgetOrder.moveRow s = N.moveRow s := by
  simp only [moveRow, move_forgetOrder]
  rfl

@[simp] theorem explore_forgetOrder
    (fuel : Nat)
    (visited queue : List StateSet) :
    N.forgetOrder.explore fuel visited queue = N.explore fuel visited queue := by
  induction fuel generalizing visited queue with
  | zero => rfl
  | succ fuel ih =>
      cases queue with
      | nil => rfl
      | cons s queue => simp only [explore, moveRow_forgetOrder, ih]

@[simp] theorem visits_forgetOrder :
    N.forgetOrder.visits = N.visits := by
  rw [visits, explore_forgetOrder, mentioned_forgetOrder]
  rfl

/-- The determinization does not show the order. -/
@[simp] theorem determinize_forgetOrder :
    N.forgetOrder.determinize = N.determinize := by
  simp only [determinize, visits_forgetOrder]
  rfl

@[simp] theorem progress_forgetOrder :
    N.forgetOrder.progress = N.progress := by
  rw [progress, visits_forgetOrder, progress]

@[simp] theorem dangling_forgetOrder :
    N.forgetOrder.dangling = N.dangling := by
  simp only [dangling, mentioned_forgetOrder]
  rfl

end Construction

section Table

@[simp] theorem tableStates_forgetOrder :
    N.forgetOrder.tableStates = N.tableStates := by
  simp only [tableStates, sources_forgetOrder]
  rfl

@[simp] theorem tableRow_forgetOrder
    (q : Int) :
    N.forgetOrder.tableRow q = N.tableRow q := by
  simp only [tableRow, targets_forgetOrder]
  rfl

/-- The transition table does not show the order, since its rows are sorted. -/
@[simp] theorem table_forgetOrder :
    N.forgetOrder.table = N.table := by
  have hrows : N.forgetOrder.tableRow = N.tableRow := funext N.tableRow_forgetOrder
  rw [table, tableStates_forgetOrder, hrows]
  rfl

end Table

section Runs

@[simp] theorem runFrom_forgetOrder
    (step : Nat)
    (s : StateSet)
    (word : List Char) :
    N.forgetOrder.runFrom step s word = N.runFrom step s word := by
  induction word generalizing step s with
  | nil => rfl
  | cons c word ih =>
      simp only [runFrom, move_forgetOrder, ih]
      rfl

/-- A run does not show the order. -/
@[simp] theorem run_forgetOrder
    (word : List Char) :
    N.forgetOrder.run word = N.run word := by
  simp only [run, runFrom_forgetOrder]
  rfl

end Runs

end NFA

namespace Description

/-- The two automata of the same contents differ in the order only. -/
theorem Contents.forgetOrder_orderedNFA
    (c : Contents) :
    c.orderedNFA.forgetOrder = c.nfa := by
  rw [orderedNFA, OrderedNFA.build, NFA.forgetOrder, nfa, NFA.build, NFA.assemble, NFA.assemble,
    OrderedTransitions.toMap_ofEdges]

/-- Reading an automaton in its order and forgetting the order is reading it. -/
theorem map_forgetOrder_readOrdered
    (lines : List String) :
    (readOrdered lines).map NFA.forgetOrder = read lines := by
  rw [readOrdered, read]
  cases contents lines with
  | error e => rfl
  | ok c => exact congrArg Except.ok c.forgetOrder_orderedNFA

theorem read_eq_ok_iff_readOrdered
    {lines : List String}
    {N : NFA} :
    read lines = .ok N ↔ ∃ L, readOrdered lines = .ok L ∧ L.forgetOrder = N := by
  rw [← map_forgetOrder_readOrdered, map_eq_ok_iff]

end Description

end Determinization
