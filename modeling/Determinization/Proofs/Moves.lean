import Determinization.Proofs.Path
import Determinization.Proofs.Subsets

/-!
# Moves along words

Successive moves along a sequence of symbols lead from a set to a set.  For a word, the states
of that set are the ends of the paths that begin in the first set and spell the word; the
empty set never becomes inhabited again.

**Results.** `mem_moveAlong_iff` joins moves and paths, and `mem_mentioned_of_mem_move` keeps
every move among the mentioned states.
-/

namespace Determinization
namespace NFA

variable {N : NFA}

/-- The set reached by successive moves along a sequence of symbols. -/
def moveAlong
    (N : NFA)
    (s : StateSet)
    (symbols : List Symbol) :
    StateSet :=
  symbols.foldl N.move s

@[simp] theorem moveAlong_nil
    (s : StateSet) :
    N.moveAlong s [] = s :=
  rfl

@[simp] theorem moveAlong_cons
    (s : StateSet)
    (a : Symbol)
    (symbols : List Symbol) :
    N.moveAlong s (a :: symbols) = N.moveAlong (N.move s a) symbols :=
  rfl

theorem moveAlong_concat
    (s : StateSet)
    (symbols : List Symbol)
    (a : Symbol) :
    N.moveAlong s (symbols ++ [a]) = N.move (N.moveAlong s symbols) a := by
  simp [moveAlong]

@[simp] theorem move_empty
    (a : Symbol) :
    N.move ∅ a = ∅ := by
  refine StateSet.ext_mem fun p => ?_
  simp [mem_move_iff]

@[simp] theorem moveAlong_empty
    (symbols : List Symbol) :
    N.moveAlong ∅ symbols = ∅ := by
  induction symbols with
  | nil => rfl
  | cons a symbols ih => rw [moveAlong_cons, move_empty, ih]

/-- The symbols that the characters of a word stand for. -/
def wordSymbols (word : List Char) : List Symbol :=
  word.map String.singleton

@[simp] theorem wordSymbols_nil :
    wordSymbols [] = [] :=
  rfl

@[simp] theorem wordSymbols_cons
    (c : Char)
    (word : List Char) :
    wordSymbols (c :: word) = String.singleton c :: wordSymbols word :=
  rfl

theorem moveAlong_wordSymbols_append
    (s : StateSet)
    (u v : List Char) :
    N.moveAlong s (wordSymbols (u ++ v))
      =
    N.moveAlong (N.moveAlong s (wordSymbols u)) (wordSymbols v) := by
  simp [moveAlong, wordSymbols]

/-- One state leads to another by a character. -/
def Step
    (N : NFA)
    (q : Int)
    (c : Char)
    (p : Int) :
    Prop :=
  p ∈ N.targets q (String.singleton c)

/-- Moves along a word reach the ends of the paths that spell it. -/
theorem mem_moveAlong_iff
    {s : StateSet}
    {word : List Char}
    {p : Int} :
    p ∈ N.moveAlong s (wordSymbols word)
      ↔
    ∃ q, q ∈ s ∧ Path N.Step q word p := by
  induction word generalizing s with
  | nil => simp
  | cons c word ih =>
      simp only [wordSymbols_cons, moveAlong_cons, ih, mem_move_iff, Path.cons_iff, Step]
      constructor
      · rintro ⟨r, ⟨q, hq, hr⟩, hpath⟩
        exact ⟨q, hq, r, hr, hpath⟩
      · rintro ⟨q, hq, r, hr, hpath⟩
        exact ⟨r, ⟨q, hq, hr⟩, hpath⟩

theorem start_mem_mentioned
    (N : NFA) :
    N.start ∈ N.mentioned := by
  simp [mentioned]

theorem mem_mentioned_of_mem_targets
    {q p : Int}
    {a : Symbol}
    (h : p ∈ N.targets q a) :
    p ∈ N.mentioned := by
  rw [targets_eq] at h
  cases hrow : N.transitions[q]? with
  | none => simp [hrow] at h
  | some row =>
      cases htargets : row[a]? with
      | none => simp [hrow, htargets] at h
      | some targets =>
          have hp : p ∈ targets := by
            simpa [hrow, htargets] using h
          have hrowTargets : p ∈ TransitionMap.rowTargets row := by
            refine List.mem_flatMap.mpr ⟨(a, targets), ?_, Std.ExtTreeSet.mem_toList.mpr hp⟩
            exact Std.ExtTreeMap.mem_toList_iff_getElem?_eq_some.mpr htargets
          simp only [mentioned, StateSet.mem_ofList, List.mem_cons, List.mem_append]
          refine Or.inr (Or.inr (List.mem_flatMap.mpr ⟨(q, row), ?_, List.mem_cons_of_mem q hrowTargets⟩))
          exact Std.ExtTreeMap.mem_toList_iff_getElem?_eq_some.mpr hrow

/-- The automaton mentions its start state, its accepting states, the states with a row and the
targets. -/
theorem mem_mentioned_iff
    {q : Int} :
    q ∈ N.mentioned
      ↔
    q = N.start ∨ q ∈ N.accepts ∨ q ∈ N.transitions ∨ ∃ p a, q ∈ N.targets p a := by
  constructor
  · intro hq
    simp only [mentioned, TransitionStore.mentions, TransitionMap.mentions, StateSet.mem_ofList,
      List.mem_cons, List.mem_append, Std.ExtTreeSet.mem_toList, List.mem_flatMap] at hq
    rcases hq with rfl | haccepts | ⟨⟨p, row⟩, hrow, rfl | htarget⟩
    · exact Or.inl rfl
    · exact Or.inr (Or.inl haccepts)
    · rw [Std.ExtTreeMap.mem_toList_iff_getElem?_eq_some] at hrow
      exact Or.inr (Or.inr (Or.inl (Std.ExtTreeMap.mem_iff_isSome_getElem?.mpr (by simp [hrow]))))
    · obtain ⟨⟨a, targets⟩, htargets, hq⟩ := List.mem_flatMap.mp htarget
      rw [Std.ExtTreeMap.mem_toList_iff_getElem?_eq_some] at hrow htargets
      refine Or.inr (Or.inr (Or.inr ⟨p, a, ?_⟩))
      simpa [targets_eq, hrow, htargets] using hq
  · rintro (rfl | haccepts | hrow | ⟨p, a, htarget⟩)
    · exact start_mem_mentioned N
    · simp only [mentioned, StateSet.mem_ofList, List.mem_cons, List.mem_append]
      exact Or.inr (Or.inl (Std.ExtTreeSet.mem_toList.mpr haccepts))
    · simp only [mentioned, StateSet.mem_ofList, List.mem_cons, List.mem_append]
      refine Or.inr (Or.inr (List.mem_flatMap.mpr ⟨(q, N.transitions[q]), ?_, List.mem_cons_self⟩))
      exact Std.ExtTreeMap.mem_toList_iff_getElem?_eq_some.mpr
        (Std.ExtTreeMap.getElem?_eq_some_getElem hrow)
    · exact mem_mentioned_of_mem_targets htarget

theorem mem_mentioned_of_mem_move
    {s : StateSet}
    {a : Symbol}
    {p : Int}
    (h : p ∈ N.move s a) :
    p ∈ N.mentioned := by
  obtain ⟨q, -, hp⟩ := mem_move_iff.mp h
  exact mem_mentioned_of_mem_targets hp

end NFA

end Determinization
