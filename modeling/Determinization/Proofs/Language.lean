import Mathlib.Tactic.TFAE
import Determinization.Comparison
import Determinization.Proofs.Accessible

/-!
# The language of an automaton

A nondeterministic automaton accepts a word if the word is made of symbols of the alphabet and
some sequence of states reads it, from the start state to an accepting state.  The runs of both
automata decide this: the nondeterministic run walks through the sets that moves reach, the
empty one included, and the deterministic run follows the same sets through its rows and stops
at the first empty one.

**Results.** `accepted_tfae` says that the two runs accept the same words, those that the
automaton accepts; so every comparison of the two automata agrees.
`accepts_iff_path_determinize` finds these words along the edges of the deterministic automaton.
-/

namespace Determinization

/-- An edge leads from one set to another by a character. -/
def DFA.Step
    (D : DFA)
    (s : StateSet)
    (c : Char)
    (t : StateSet) :
    Prop :=
  ⟨s, String.singleton c, t⟩ ∈ D.edges

namespace NFA

variable {N : NFA}

/--
The characters of the word are symbols of the alphabet, and a sequence of states that begins
in the start state reads them one after the other and ends in an accepting state.
-/
def Accepts
    (N : NFA)
    (word : List Char) :
    Prop :=
  (∀ c ∈ word, String.singleton c ∈ N.alphabet) ∧
    ∃ state : Nat → Int,
      state 0 = N.start ∧
      (∀ k (hk : k < word.length),
        state (k + 1) ∈ N.targets (state k) (String.singleton word[k])) ∧
      state word.length ∈ N.accepts

/-- A word is accepted if a path from the start state to an accepting state spells it. -/
theorem accepts_iff_path
    {word : List Char} :
    N.Accepts word
      ↔
    (∀ c ∈ word, String.singleton c ∈ N.alphabet) ∧
      ∃ p, Path N.Step N.start word p ∧ p ∈ N.accepts := by
  refine and_congr_right fun _ => ?_
  constructor
  · rintro ⟨state, hstart, hsteps, haccepts⟩
    exact ⟨_, Path.iff_exists_sequence.mpr ⟨state, hstart, hsteps, rfl⟩, haccepts⟩
  · rintro ⟨p, hpath, haccepts⟩
    obtain ⟨state, hstart, hsteps, rfl⟩ := Path.iff_exists_sequence.mp hpath
    exact ⟨state, hstart, hsteps, haccepts⟩

/-- A word is accepted if its moves lead from the start set to a set with an accepting state. -/
theorem accepts_iff_meets
    {word : List Char} :
    N.Accepts word
      ↔
    (∀ c ∈ word, String.singleton c ∈ N.alphabet) ∧
      (N.moveAlong N.startSet (wordSymbols word)).meets N.accepts = true := by
  rw [accepts_iff_path]
  refine and_congr_right fun _ => ?_
  simp [StateSet.meets_iff, mem_moveAlong_iff, startSet]

section Runs

theorem inAlphabet_iff
    {alphabet : List Symbol}
    {c : Char} :
    inAlphabet alphabet c = true ↔ String.singleton c ∈ alphabet := by
  simp [inAlphabet]

@[simp] theorem accepted_cons
    (row : TraceRow)
    (r : Run) :
    (r.cons row).accepted = r.accepted :=
  rfl

/-- A run from a set accepts if its word has symbols only and moves to an accepting state. -/
theorem runFrom_accepted_iff
    {step : Nat}
    {s : StateSet}
    {word : List Char} :
    (N.runFrom step s word).accepted = true
      ↔
    (∀ c ∈ word, String.singleton c ∈ N.alphabet) ∧
      (N.moveAlong s (wordSymbols word)).meets N.accepts = true := by
  induction word generalizing step s with
  | nil =>
      cases hmeets : s.meets N.accepts <;>
        simp [runFrom, Run.accepted, Reason.accepted, hmeets]
  | cons c word ih =>
      by_cases hc : String.singleton c ∈ N.alphabet
      · simp [runFrom, inAlphabet_iff.mpr hc, ih, hc]
      · have hout : inAlphabet N.alphabet c = false :=
          Bool.eq_false_iff.mpr (mt inAlphabet_iff.mp hc)
        simp [runFrom, hout, hc, Run.accepted, Reason.accepted]

theorem run_accepted_iff
    {word : List Char} :
    (N.run word).accepted = true ↔ N.Accepts word := by
  rw [accepts_iff_meets, run, accepted_cons, runFrom_accepted_iff]
  rfl

@[simp] theorem meets_empty
    (t : StateSet) :
    StateSet.meets ∅ t = false := by
  rw [Bool.eq_false_iff, Ne, StateSet.meets_iff]
  simp

/--
A deterministic run from a state accepts as the nondeterministic one does: its steps are the
moves, and where it stops at the empty set the moves never leave it.
-/
theorem runFrom_determinize_accepted_iff
    {step : Nat}
    {s : StateSet}
    {word : List Char}
    (hs : s ∈ N.determinize.states) :
    (N.determinize.runFrom step s word).accepted = true
      ↔
    (∀ c ∈ word, String.singleton c ∈ N.alphabet) ∧
      (N.moveAlong s (wordSymbols word)).meets N.accepts = true := by
  induction word generalizing step s with
  | nil =>
      have haccepting : N.determinize.isAccepting s = s.meets N.accepts :=
        isAccepting_determinize hs
      cases hmeets : s.meets N.accepts <;>
        simp [DFA.runFrom, Run.accepted, Reason.accepted, haccepting, hmeets]
  | cons c word ih =>
      by_cases hc : String.singleton c ∈ N.alphabet
      · have hin : inAlphabet N.determinize.alphabet c = true :=
          inAlphabet_iff.mpr hc
        have hstep :
            N.determinize.step s (String.singleton c) = N.move s (String.singleton c) := by
          rw [step_eq, if_pos ⟨hs, hc⟩]
        by_cases hempty : N.move s (String.singleton c) = ∅
        · simp [DFA.runFrom, hin, hstep, hempty, Run.accepted, Reason.accepted]
        · have hnext : N.move s (String.singleton c) ∈ N.determinize.states :=
            move_mem_states hs hc hempty
          simp [DFA.runFrom, hin, hstep, Std.ExtTreeSet.isEmpty_iff, hempty, ih hnext, hc]
      · have hout : inAlphabet N.determinize.alphabet c = false :=
          Bool.eq_false_iff.mpr (mt inAlphabet_iff.mp hc)
        simp [DFA.runFrom, hout, hc, Run.accepted, Reason.accepted]

theorem run_determinize_accepted_iff
    {word : List Char} :
    (N.determinize.run word).accepted = true ↔ N.Accepts word := by
  rw [accepts_iff_meets, DFA.run]
  exact runFrom_determinize_accepted_iff (startSet_mem_states N)

end Runs

section Edges

/-- The paths along edges from a state follow the moves, and never through the empty set. -/
theorem path_determinize_iff
    {s t : StateSet}
    {word : List Char}
    (hs : s ∈ N.determinize.states) :
    Path N.determinize.Step s word t
      ↔
    (∀ c ∈ word, String.singleton c ∈ N.alphabet) ∧
      N.moveAlong s (wordSymbols word) = t ∧
      t ≠ ∅ := by
  induction word generalizing s with
  | nil =>
      have hne : s ≠ ∅ := (reached_of_mem_states hs).1
      simp only [Path.nil_iff, List.not_mem_nil, false_implies, implies_true, wordSymbols_nil,
        moveAlong_nil, true_and]
      constructor
      · rintro rfl
        exact ⟨rfl, hne⟩
      · exact fun h => h.1
  | cons c word ih =>
      simp only [Path.cons_iff, DFA.Step, mem_edges_iff, List.forall_mem_cons, wordSymbols_cons,
        moveAlong_cons]
      constructor
      · rintro ⟨middle, ⟨-, hc, rfl, hne⟩, hpath⟩
        have hmiddle := move_mem_states hs hc hne
        obtain ⟨hword, htarget, ht⟩ := (ih hmiddle).mp hpath
        exact ⟨⟨hc, hword⟩, htarget, ht⟩
      · rintro ⟨⟨hc, hword⟩, htarget, ht⟩
        have hne : N.move s (String.singleton c) ≠ ∅ := by
          intro hempty
          rw [hempty, moveAlong_empty] at htarget
          exact ht htarget.symm
        have hmiddle := move_mem_states hs hc hne
        exact ⟨_, ⟨hs, hc, rfl, hne⟩, (ih hmiddle).mpr ⟨hword, htarget, ht⟩⟩

/-- A word is accepted if a path along edges spells it, from the start set to an accepting one. -/
theorem accepts_iff_path_determinize
    {word : List Char} :
    N.Accepts word
      ↔
    ∃ t ∈ N.determinize.accepts, Path N.determinize.Step N.determinize.start word t := by
  have hstart := startSet_mem_states N
  rw [accepts_iff_meets]
  constructor
  · rintro ⟨hword, hmeets⟩
    have hne : N.moveAlong N.startSet (wordSymbols word) ≠ ∅ := by
      intro hempty
      simp [hempty] at hmeets
    have hpath := (path_determinize_iff hstart).mpr ⟨hword, rfl, hne⟩
    have hsymbols : ∀ a ∈ wordSymbols word, a ∈ N.alphabet := by
      simpa [wordSymbols] using hword
    exact ⟨_, mem_accepts_iff.mpr ⟨moveAlong_mem_states hsymbols hne, hmeets⟩, hpath⟩
  · rintro ⟨t, ht, hpath⟩
    obtain ⟨hword, rfl, -⟩ := (path_determinize_iff hstart).mp hpath
    exact ⟨hword, (mem_accepts_iff.mp ht).2⟩

end Edges

/--
The run of an automaton and the run of its determinization accept the same words: those that a
sequence of states reads from the start state to an accepting state.  Every comparison of the
two agrees.
-/
theorem accepted_tfae
    (N : NFA) :
    (∀ word : List Char,
      List.TFAE
        [ (N.run word).accepted = true,
          (N.determinize.run word).accepted = true,
          N.Accepts word ]) ∧
    ∀ words : List ShownWord, verdictsAgree N N.determinize words = true := by
  constructor
  · intro word
    tfae_have 1 ↔ 3 := run_accepted_iff
    tfae_have 2 ↔ 3 := run_determinize_accepted_iff
    tfae_finish
  · intro words
    refine verdictsAgree_iff.mpr fun w _ => ?_
    rw [Bool.eq_iff_iff, run_accepted_iff, run_determinize_accepted_iff]

end NFA

end Determinization
