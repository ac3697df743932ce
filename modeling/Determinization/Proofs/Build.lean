import Mathlib.Tactic.Common
import Determinization.NFA
import Determinization.Proofs.Subsets

/-!
# Automata built from edges

The transition map of an automaton is built edge by edge.  Adding an edge changes one target
set, by one member, and creates the row and the set if they are missing.  A map that is built in
this way is compact: it has neither empty rows nor empty target sets.

**Results.** `mem_targets_build_iff`: the targets of a built automaton are its edges.
`isCompact_ofEdges`: a built map is compact, and `IsCompact.eq_of_targets_eq`: a compact map is
determined by its targets.
-/

namespace Determinization

namespace TransitionMap

/-- The map has no empty row and no empty target set. -/
structure IsCompact (transitions : TransitionMap) : Prop where
  row_ne_empty : ∀ q : Int, transitions[q]? ≠ some ∅
  targets_ne_empty : ∀ (q : Int) (a : Symbol), (transitions[q]?.getD ∅)[a]? ≠ some ∅

/-- Adding an edge adds its target to the targets of its source and symbol. -/
theorem mem_targets_addEdge_iff
    {transitions : TransitionMap}
    {edge : Edge}
    {q p : Int}
    {a : Symbol} :
    p ∈ (transitions.addEdge edge).targets q a
      ↔
    edge = ⟨q, a, p⟩ ∨ p ∈ transitions.targets q a := by
  obtain ⟨source, symbol, target⟩ := edge
  by_cases hq : source = q
  · subst hq
    by_cases ha : symbol = a
    · subst ha
      simp [targets, addEdge]
    · simp [targets, addEdge, Std.ExtTreeMap.getElem?_alter, ha]
  · simp [targets, addEdge, Std.ExtTreeMap.getElem?_alter, hq]

theorem mem_targets_ofEdges_iff
    {edges : List Edge}
    {q p : Int}
    {a : Symbol} :
    p ∈ (ofEdges edges).targets q a ↔ ⟨q, a, p⟩ ∈ edges := by
  have hfold : ∀ transitions : TransitionMap,
      p ∈ (edges.foldl addEdge transitions).targets q a
        ↔
      ⟨q, a, p⟩ ∈ edges ∨ p ∈ transitions.targets q a := by
    induction edges with
    | nil => simp
    | cons edge edges ih =>
        intro transitions
        rw [List.foldl_cons, ih, mem_targets_addEdge_iff, List.mem_cons, eq_comm]
        tauto
  have hempty : p ∉ targets ∅ q a := by
    simp [targets]
  rw [ofEdges, hfold]
  simp [hempty]

/-- Adding an edge leaves no row and no target set empty. -/
theorem IsCompact.addEdge
    {transitions : TransitionMap}
    (h : IsCompact transitions)
    (edge : Edge) :
    IsCompact (transitions.addEdge edge) := by
  obtain ⟨source, symbol, target⟩ := edge
  constructor
  · intro q
    by_cases hq : source = q
    · subst hq
      simp [TransitionMap.addEdge]
    · simpa [TransitionMap.addEdge, Std.ExtTreeMap.getElem?_alter, hq] using h.row_ne_empty q
  · intro q a
    have hold := h.targets_ne_empty q a
    by_cases hq : source = q
    · subst hq
      by_cases ha : symbol = a
      · subst ha
        simp [TransitionMap.addEdge]
      · simpa [TransitionMap.addEdge, Std.ExtTreeMap.getElem?_alter, ha] using hold
    · simpa [TransitionMap.addEdge, Std.ExtTreeMap.getElem?_alter, hq] using hold

theorem isCompact_ofEdges
    (edges : List Edge) :
    IsCompact (ofEdges edges) := by
  have hfold : ∀ transitions, IsCompact transitions →
      IsCompact (edges.foldl TransitionMap.addEdge transitions) := by
    induction edges with
    | nil => exact fun _ h => h
    | cons edge edges ih => exact fun transitions h => ih _ (h.addEdge edge)
  exact hfold ∅ ⟨by simp, by simp⟩

/-- In a compact map every symbol of a row leads to some target. -/
theorem IsCompact.exists_target
    {transitions : TransitionMap}
    (h : IsCompact transitions)
    {q : Int}
    {a : Symbol}
    (ha : a ∈ transitions[q]?.getD ∅) :
    ∃ p, p ∈ targets transitions q a := by
  have hentry := Std.ExtTreeMap.getElem?_eq_some_getElem ha
  rw [← StateSet.ne_empty_iff, targets, hentry, Option.getD_some]
  intro hempty
  exact h.targets_ne_empty q a (hentry.trans (congrArg some hempty))

/-- In a compact map every state with a row has some symbol. -/
theorem IsCompact.exists_symbol
    {transitions : TransitionMap}
    (h : IsCompact transitions)
    {q : Int}
    (hq : q ∈ transitions) :
    ∃ a, a ∈ transitions[q]?.getD ∅ := by
  have hrow := Std.ExtTreeMap.getElem?_eq_some_getElem hq
  by_contra hnone
  push Not at hnone
  rw [hrow, Option.getD_some] at hnone
  have hempty := Std.ExtTreeMap.eq_empty_iff_forall_not_mem.mpr hnone
  exact h.row_ne_empty q (hrow.trans (congrArg some hempty))

/-- An entry that differs from the default value is determined by the lookup with the default. -/
theorem eq_of_getD_eq
    {α : Type}
    {x y : Option α}
    {d : α}
    (hx : x ≠ some d)
    (hy : y ≠ some d)
    (h : x.getD d = y.getD d) :
    x = y := by
  cases x with
  | none =>
      cases y with
      | none => rfl
      | some b => exact absurd (congrArg some h.symm) hy
  | some a =>
      cases y with
      | none => exact absurd (congrArg some h) hx
      | some b => exact congrArg some h

/-- A compact map is determined by its targets. -/
theorem IsCompact.eq_of_targets_eq
    {transitions others : TransitionMap}
    (h : IsCompact transitions)
    (hothers : IsCompact others)
    (heq : ∀ q a, transitions.targets q a = others.targets q a) :
    transitions = others := by
  refine Std.ExtTreeMap.ext_getElem? fun q => ?_
  refine eq_of_getD_eq (h.row_ne_empty q) (hothers.row_ne_empty q) ?_
  refine Std.ExtTreeMap.ext_getElem? fun a => ?_
  exact eq_of_getD_eq (h.targets_ne_empty q a) (hothers.targets_ne_empty q a) (heq q a)

end TransitionMap

namespace NFA

/-- The targets of a built automaton are those of its edges. -/
theorem mem_targets_build_iff
    {numStates start : Int}
    {alphabet : List Symbol}
    {accepts : List Int}
    {edges : List Edge}
    {q p : Int}
    {a : Symbol} :
    p ∈ (build numStates alphabet start accepts edges).targets q a ↔ ⟨q, a, p⟩ ∈ edges :=
  TransitionMap.mem_targets_ofEdges_iff

end NFA

end Determinization
