import Determinization.Proofs.Language

/-!
# The two traces of a word

The nondeterministic run of a word and the run of the determinization read the same characters
in the same sets.  They part only where the moves die out: there the deterministic run ends,
while the nondeterministic one reads on in the empty set.

A word meets one of three fates from a nonempty set: it survives to its end, it survives up to
a character outside the alphabet, or it survives up to a symbol by which there is no move.  In the
first two both runs write the same rows; in the third the deterministic rows are those of the
shortest dead prefix.

**Results.**
* `runFrom_append` and `runFrom_determinize_append`: both runs read a surviving word with the
  same rows.
* `fate`: the three fates are all.
* `traces_agree`: what the two traces and the two reasons of a word have in common.
-/

namespace Determinization

namespace Run

/-- The run with rows in front. -/
def prepend
    (rows : List TraceRow)
    (r : Run) :
    Run :=
  ⟨rows ++ r.trace, r.reason⟩

/-- The texts of the rows of a run. -/
def traceTexts (r : Run) : List TraceTexts :=
  r.trace.map TraceRow.texts

end Run

namespace NFA

variable {N : NFA}

/-- The rows of a run that reads a word from a set. -/
def rowsAlong
    (N : NFA) :
    StateSet → List Char → List TraceRow
  | _, [] => []
  | s, c :: word =>
      let t := N.move s (String.singleton c)
      TraceRow.read s c t :: N.rowsAlong t word

/-- The word consists of symbols, and the moves along it do not end in the empty set. -/
structure Survives
    (N : NFA)
    (s : StateSet)
    (word : List Char) :
    Prop where
  symbols : ∀ c ∈ word, String.singleton c ∈ N.alphabet
  moveAlong_ne_empty : N.moveAlong s (wordSymbols word) ≠ ∅

/-- A prefix of the word consists of symbols and leads from the start set to the empty set. -/
structure IsDeadPrefix
    (N : NFA)
    (word part : List Char) :
    Prop where
  isPrefix : part <+: word
  symbols : ∀ c ∈ part, String.singleton c ∈ N.alphabet
  moveAlong_eq_empty : N.moveAlong (StateSet.singleton N.start) (wordSymbols part) = ∅

section Surviving

theorem Survives.nil
    {s : StateSet}
    (hs : s ≠ ∅) :
    N.Survives s [] :=
  ⟨by simp, hs⟩

theorem survives_cons_iff
    {s : StateSet}
    {c : Char}
    {word : List Char} :
    N.Survives s (c :: word)
      ↔
    String.singleton c ∈ N.alphabet ∧ N.Survives (N.move s (String.singleton c)) word := by
  constructor
  · rintro ⟨hsymbols, hne⟩
    rw [List.forall_mem_cons] at hsymbols
    exact ⟨hsymbols.1, hsymbols.2, hne⟩
  · rintro ⟨hc, hsymbols, hne⟩
    exact ⟨List.forall_mem_cons.mpr ⟨hc, hsymbols⟩, hne⟩

/-- A word survives only from a nonempty set, since no move leaves the empty one. -/
theorem Survives.source_ne_empty
    {s : StateSet}
    {word : List Char}
    (h : N.Survives s word) :
    s ≠ ∅ := by
  rintro rfl
  exact h.moveAlong_ne_empty (moveAlong_empty _)

/-- Every prefix of a surviving word survives. -/
theorem Survives.of_prefix
    {s : StateSet}
    {word part : List Char}
    (h : N.Survives s word)
    (hpart : part <+: word) :
    N.Survives s part := by
  obtain ⟨rest, rfl⟩ := hpart
  refine ⟨fun c hc => h.symbols c (List.mem_append_left rest hc), fun hempty => ?_⟩
  apply h.moveAlong_ne_empty
  rw [moveAlong_wordSymbols_append, hempty, moveAlong_empty]

/-- The fates of a word from a set. -/
inductive Fate
    (N : NFA)
    (s : StateSet) :
    List Char → Prop
  | survives {word : List Char} :
      N.Survives s word →
      Fate N s word
  | leavesAlphabet {u v : List Char} {c : Char} :
      N.Survives s u →
      String.singleton c ∉ N.alphabet →
      Fate N s (u ++ c :: v)
  | dies {u v : List Char} {c : Char} :
      N.Survives s u →
      String.singleton c ∈ N.alphabet →
      N.move (N.moveAlong s (wordSymbols u)) (String.singleton c) = ∅ →
      Fate N s (u ++ c :: v)

/-- Every word meets one of the three fates. -/
theorem fate
    {s : StateSet}
    (hs : s ≠ ∅)
    (word : List Char) :
    N.Fate s word := by
  induction word generalizing s with
  | nil => exact .survives (.nil hs)
  | cons c word ih =>
      by_cases hc : String.singleton c ∈ N.alphabet
      · by_cases hempty : N.move s (String.singleton c) = ∅
        · exact .dies (u := []) (.nil hs) hc hempty
        · cases ih hempty with
          | survives h => exact .survives (survives_cons_iff.mpr ⟨hc, h⟩)
          | @leavesAlphabet u v d h hd =>
              exact .leavesAlphabet (u := c :: u) (survives_cons_iff.mpr ⟨hc, h⟩) hd
          | @dies u v d h hd hdead =>
              exact .dies (u := c :: u) (survives_cons_iff.mpr ⟨hc, h⟩) hd hdead
      · exact .leavesAlphabet (u := []) (.nil hs) hc

end Surviving

section Rows

theorem length_rowsAlong
    (s : StateSet)
    (word : List Char) :
    (N.rowsAlong s word).length = word.length := by
  induction word generalizing s with
  | nil => rfl
  | cons c word ih => rw [rowsAlong, List.length_cons, ih, List.length_cons]

theorem rowsAlong_concat
    (s : StateSet)
    (word : List Char)
    (c : Char) :
    N.rowsAlong s (word ++ [c])
      =
    N.rowsAlong s word ++
      [TraceRow.read (N.moveAlong s (wordSymbols word)) c
        (N.move (N.moveAlong s (wordSymbols word)) (String.singleton c))] := by
  induction word generalizing s with
  | nil => rfl
  | cons d word ih =>
      rw [List.cons_append, rowsAlong, ih]
      rfl

theorem runFrom_cons_of_mem
    {step : Nat}
    {s : StateSet}
    {c : Char}
    (hc : String.singleton c ∈ N.alphabet)
    (word : List Char) :
    N.runFrom step s (c :: word)
      =
    (N.runFrom (step + 1) (N.move s (String.singleton c)) word).cons
      (TraceRow.read s c (N.move s (String.singleton c))) := by
  rw [runFrom, if_pos (inAlphabet_iff.mpr hc)]

theorem runFrom_cons_of_not_mem
    {step : Nat}
    {s : StateSet}
    {c : Char}
    (hc : String.singleton c ∉ N.alphabet)
    (word : List Char) :
    N.runFrom step s (c :: word) = ⟨[TraceRow.stuck s c], .outsideAlphabet step c⟩ := by
  rw [runFrom, if_neg (mt inAlphabet_iff.mp hc)]

/-- The run of the determinization follows the moves of a state, unless they end there. -/
theorem runFrom_determinize_cons_of_mem
    {step : Nat}
    {s : StateSet}
    {c : Char}
    (hs : s ∈ N.determinize.states)
    (hc : String.singleton c ∈ N.alphabet)
    (word : List Char) :
    N.determinize.runFrom step s (c :: word)
      =
    if N.move s (String.singleton c) = ∅ then
      ⟨[TraceRow.read s c ∅], .noMove step s c⟩
    else
      (N.determinize.runFrom (step + 1) (N.move s (String.singleton c)) word).cons
        (TraceRow.read s c (N.move s (String.singleton c))) := by
  have halphabet : inAlphabet N.determinize.alphabet c = true :=
    inAlphabet_iff.mpr hc
  have hstep : N.determinize.step s (String.singleton c) = N.move s (String.singleton c) := by
    rw [step_eq, if_pos ⟨hs, hc⟩]
  rw [DFA.runFrom, if_pos halphabet, hstep]
  by_cases hempty : N.move s (String.singleton c) = ∅
  · simp [hempty]
  · simp [Std.ExtTreeSet.isEmpty_iff, hempty]

theorem runFrom_determinize_cons_of_not_mem
    {step : Nat}
    {s : StateSet}
    {c : Char}
    (hc : String.singleton c ∉ N.alphabet)
    (word : List Char) :
    N.determinize.runFrom step s (c :: word)
      =
    ⟨[TraceRow.stuck s c], .outsideAlphabet step c⟩ := by
  have halphabet : ¬ inAlphabet N.determinize.alphabet c = true :=
    mt inAlphabet_iff.mp hc
  rw [DFA.runFrom, if_neg halphabet]

/-- A nondeterministic run reads the symbols of a word and goes on from the set it gets to. -/
theorem runFrom_append
    (step : Nat)
    {s : StateSet}
    {u : List Char}
    (hu : ∀ c ∈ u, String.singleton c ∈ N.alphabet)
    (v : List Char) :
    N.runFrom step s (u ++ v)
      =
    (N.runFrom (step + u.length) (N.moveAlong s (wordSymbols u)) v).prepend
      (N.rowsAlong s u) := by
  induction u generalizing step s with
  | nil => rfl
  | cons c u ih =>
      rw [List.forall_mem_cons] at hu
      rw [List.cons_append, runFrom_cons_of_mem hu.1, ih (step + 1) hu.2, List.length_cons,
        Nat.add_assoc, Nat.add_comm 1]
      rfl

/-- The run of the determinization reads a surviving word with the same rows. -/
theorem runFrom_determinize_append
    (step : Nat)
    {s : StateSet}
    {u : List Char}
    (hs : s ∈ N.determinize.states)
    (hu : N.Survives s u)
    (v : List Char) :
    N.determinize.runFrom step s (u ++ v)
      =
    (N.determinize.runFrom (step + u.length) (N.moveAlong s (wordSymbols u)) v).prepend
      (N.rowsAlong s u) := by
  induction u generalizing step s with
  | nil => rfl
  | cons c u ih =>
      obtain ⟨hc, hrest⟩ := survives_cons_iff.mp hu
      have hne := hrest.source_ne_empty
      have hnext : N.move s (String.singleton c) ∈ N.determinize.states :=
        move_mem_states hs hc hne
      rw [List.cons_append, runFrom_determinize_cons_of_mem hs hc, if_neg hne,
        ih (step + 1) hnext hrest, List.length_cons, Nat.add_assoc, Nat.add_comm 1]
      rfl

/-- A surviving word leads from a state to a state. -/
theorem Survives.moveAlong_mem_states
    {word : List Char}
    (h : N.Survives N.startSet word) :
    N.moveAlong N.startSet (wordSymbols word) ∈ N.determinize.states := by
  refine NFA.moveAlong_mem_states ?_ h.moveAlong_ne_empty
  simpa [wordSymbols] using h.symbols

/-- A nondeterministic run never leaves the empty set. -/
theorem current_of_mem_runFrom_empty
    {step : Nat}
    {word : List Char} :
    ∀ row ∈ (N.runFrom step ∅ word).trace, row.current = ∅ := by
  induction word generalizing step with
  | nil =>
      intro row hrow
      rw [runFrom, List.mem_singleton] at hrow
      rw [hrow]
      rfl
  | cons c word ih =>
      intro row hrow
      rw [runFrom, move_empty] at hrow
      split at hrow
      · rcases List.mem_cons.mp hrow with rfl | hrow
        · rfl
        · exact ih row hrow
      · rw [List.mem_singleton] at hrow
        rw [hrow]
        rfl

end Rows

section Fates

variable {u v : List Char} {c : Char}

theorem run_append
    (hu : ∀ c ∈ u, String.singleton c ∈ N.alphabet)
    (v : List Char) :
    N.run (u ++ v)
      =
    (N.runFrom u.length (N.moveAlong N.startSet (wordSymbols u)) v).prepend
      (TraceRow.stay N.startSet :: N.rowsAlong N.startSet u) := by
  have hrest := runFrom_append 0 (s := N.startSet) hu v
  rw [Nat.zero_add] at hrest
  exact congrArg (Run.cons (TraceRow.stay N.startSet)) hrest

theorem run_determinize_append
    (hu : N.Survives N.startSet u)
    (v : List Char) :
    N.determinize.run (u ++ v)
      =
    (N.determinize.runFrom u.length (N.moveAlong N.startSet (wordSymbols u)) v).prepend
      (N.rowsAlong N.startSet u) := by
  have hrest := runFrom_determinize_append 0 (startSet_mem_states N) hu v
  rwa [Nat.zero_add] at hrest

/-- Along a word that survives both runs have the same rows, the opening row apart. -/
theorem trace_run_of_survives
    {word : List Char}
    (h : N.Survives N.startSet word) :
    (N.run word).trace = TraceRow.stay N.startSet :: (N.determinize.run word).trace := by
  rw [← List.append_nil word, run_append h.symbols, run_determinize_append h]
  rfl

/-- At a character outside the alphabet both runs end alike. -/
theorem run_of_leavesAlphabet
    (h : N.Survives N.startSet u)
    (hc : String.singleton c ∉ N.alphabet)
    (v : List Char) :
    N.run (u ++ c :: v) = (N.determinize.run (u ++ c :: v)).cons (TraceRow.stay N.startSet) ∧
      (N.determinize.run (u ++ c :: v)).reason = .outsideAlphabet u.length c := by
  rw [run_append h.symbols, run_determinize_append h, runFrom_cons_of_not_mem hc,
    runFrom_determinize_cons_of_not_mem hc]
  exact ⟨rfl, rfl⟩

/-- Where the moves die out, the deterministic run ends and the other one stays in the empty set. -/
theorem trace_of_dies
    (h : N.Survives N.startSet u)
    (hc : String.singleton c ∈ N.alphabet)
    (hempty : N.move (N.moveAlong N.startSet (wordSymbols u)) (String.singleton c) = ∅)
    (v : List Char) :
    (N.determinize.run (u ++ c :: v)).trace = N.rowsAlong N.startSet (u ++ [c]) ∧
      (N.run (u ++ c :: v)).trace
        =
      TraceRow.stay N.startSet ::
        (N.rowsAlong N.startSet (u ++ [c]) ++ (N.runFrom (u.length + 1) ∅ v).trace) := by
  rw [run_append h.symbols, run_determinize_append h, runFrom_cons_of_mem hc,
    runFrom_determinize_cons_of_mem h.moveAlong_mem_states hc, if_pos hempty, hempty,
    rowsAlong_concat, hempty]
  constructor
  · rfl
  · simp [Run.prepend, Run.cons]

end Fates

section DeadPrefixes

variable {u v part word : List Char} {c : Char}

theorem Survives.not_isDeadPrefix
    (h : N.Survives N.startSet word) :
    ¬ N.IsDeadPrefix word part :=
  fun hpart => (h.of_prefix hpart.isPrefix).moveAlong_ne_empty hpart.moveAlong_eq_empty

/-- A prefix of symbols ends before the first character outside the alphabet. -/
theorem prefix_of_not_mem
    (hpart : part <+: u ++ c :: v)
    (hc : c ∉ part) :
    part <+: u := by
  have hu : u ++ [c] <+: u ++ c :: v := ⟨v, by simp⟩
  rcases Nat.lt_or_ge u.length part.length with hlt | hle
  · have hlength : (u ++ [c]).length ≤ part.length := by
      rw [List.length_append, List.length_singleton]
      exact hlt
    have hlonger := List.prefix_of_prefix_length_le hu hpart hlength
    exact absurd (hlonger.subset (by simp)) hc
  · exact List.prefix_of_prefix_length_le hpart (List.prefix_append u _) hle

theorem not_isDeadPrefix_of_leavesAlphabet
    (h : N.Survives N.startSet u)
    (hc : String.singleton c ∉ N.alphabet) :
    ¬ N.IsDeadPrefix (u ++ c :: v) part := by
  intro hpart
  have hbegins := prefix_of_not_mem hpart.isPrefix fun hmem => hc (hpart.symbols c hmem)
  exact (h.of_prefix hbegins).moveAlong_ne_empty hpart.moveAlong_eq_empty

theorem isDeadPrefix_of_dies
    (h : N.Survives N.startSet u)
    (hc : String.singleton c ∈ N.alphabet)
    (hempty : N.move (N.moveAlong N.startSet (wordSymbols u)) (String.singleton c) = ∅) :
    N.IsDeadPrefix (u ++ c :: v) (u ++ [c]) where
  isPrefix := ⟨v, by simp⟩
  symbols := by
    intro d hd
    rcases List.mem_append.mp hd with hd | hd
    · exact h.symbols d hd
    · exact List.mem_singleton.mp hd ▸ hc
  moveAlong_eq_empty := by
    rw [moveAlong_wordSymbols_append]
    exact hempty

/-- A shortest dead prefix is a word that survives, followed by the symbol that kills it. -/
theorem IsDeadPrefix.exists_concat
    (hpart : N.IsDeadPrefix word part)
    (hshortest : ∀ other, N.IsDeadPrefix word other → part.length ≤ other.length) :
    ∃ u c v,
      word = u ++ c :: v ∧
      part = u ++ [c] ∧
      N.Survives N.startSet u ∧
      String.singleton c ∈ N.alphabet ∧
      N.move (N.moveAlong N.startSet (wordSymbols u)) (String.singleton c) = ∅ := by
  obtain ⟨hbegins, hsymbols, hempty⟩ := hpart
  rcases List.eq_nil_or_concat' part with rfl | ⟨u, c, rfl⟩
  · exact absurd hempty (startSet_isPartOf_mentioned N).1
  · obtain ⟨v, rfl⟩ := hbegins
    have hu : ∀ d ∈ u, String.singleton d ∈ N.alphabet :=
      fun d hd => hsymbols d (List.mem_append_left _ hd)
    have halive : N.moveAlong N.startSet (wordSymbols u) ≠ ∅ := by
      intro hdead
      have hle := hshortest u ⟨⟨[c] ++ v, by simp⟩, hu, hdead⟩
      rw [List.length_append, List.length_singleton] at hle
      omega
    refine ⟨u, c, v, by simp, rfl, ⟨hu, halive⟩, hsymbols c (by simp), ?_⟩
    rwa [moveAlong_wordSymbols_append] at hempty

end DeadPrefixes

section Agreement

theorem trace_runFrom_ne_nil
    (step : Nat)
    (s : StateSet)
    (word : List Char) :
    (N.runFrom step s word).trace ≠ [] := by
  cases word with
  | nil => simp [runFrom]
  | cons c word =>
      by_cases hc : String.singleton c ∈ N.alphabet
      · simp [runFrom_cons_of_mem hc, Run.cons]
      · simp [runFrom_cons_of_not_mem hc]

/--
The nondeterministic texts are those of the opening row and of the deterministic rows, with further
ones if and only if the word has a dead prefix.
-/
theorem traceTexts_run_eq
    (N : NFA)
    (word : List Char) :
    ∃ later : List TraceTexts,
      (N.run word).traceTexts
        =
      (TraceRow.stay N.startSet).texts :: ((N.determinize.run word).traceTexts ++ later) ∧
      (later = [] ↔ ¬ ∃ part, N.IsDeadPrefix word part) := by
  cases fate (startSet_isPartOf_mentioned N).1 word with
  | survives h =>
      refine ⟨[], ?_, iff_of_true rfl fun ⟨_, hpart⟩ => h.not_isDeadPrefix hpart⟩
      rw [List.append_nil, Run.traceTexts, trace_run_of_survives h]
      rfl
  | @leavesAlphabet u v c h hc =>
      refine ⟨[], ?_, iff_of_true rfl fun ⟨_, hpart⟩ =>
        not_isDeadPrefix_of_leavesAlphabet h hc hpart⟩
      rw [List.append_nil, (run_of_leavesAlphabet h hc v).1]
      rfl
  | @dies u v c h hc hempty =>
      obtain ⟨htrace, htrace'⟩ := trace_of_dies h hc hempty v
      refine ⟨(N.runFrom (u.length + 1) ∅ v).traceTexts, ?_, ?_⟩
      · simp [Run.traceTexts, htrace, htrace']
      · refine iff_of_false ?_ fun hnone => hnone ⟨_, isDeadPrefix_of_dies h hc hempty⟩
        exact mt List.map_eq_nil_iff.mp (trace_runFrom_ne_nil _ _ _)

/-- At a shortest dead prefix the deterministic run ends and the other one goes on in the empty set. -/
theorem IsDeadPrefix.traceTexts_of_shortest
    {word part : List Char}
    (hpart : N.IsDeadPrefix word part)
    (hshortest : ∀ other, N.IsDeadPrefix word other → part.length ≤ other.length) :
    (N.determinize.run word).traceTexts.length = part.length ∧
      (∃ row, (N.determinize.run word).traceTexts.getLast? = some row ∧ row.next = "-") ∧
      ∀ row ∈ (N.run word).traceTexts.drop (part.length + 1), row.current = "∅" := by
  obtain ⟨u, c, v, rfl, rfl, h, hc, hempty⟩ := hpart.exists_concat hshortest
  obtain ⟨hdeterministic, hnondeterministic⟩ := trace_of_dies h hc hempty v
  refine ⟨?_, ?_, ?_⟩
  · rw [Run.traceTexts, hdeterministic, List.length_map, length_rowsAlong]
  · refine ⟨(TraceRow.read (N.moveAlong N.startSet (wordSymbols u)) c ∅).texts, ?_, rfl⟩
    rw [Run.traceTexts, hdeterministic, rowsAlong_concat, hempty, List.map_append,
      List.map_singleton, List.getLast?_concat]
  · have hdrop :
        (N.run (u ++ c :: v)).traceTexts.drop ((u ++ [c]).length + 1)
          =
        (N.runFrom (u.length + 1) ∅ v).trace.map TraceRow.texts := by
      rw [Run.traceTexts, hnondeterministic, ← List.map_drop, List.drop_succ_cons,
        List.drop_left' (length_rowsAlong _ _)]
    intro texts htexts
    rw [hdrop] at htexts
    obtain ⟨row, hrow, rfl⟩ := List.mem_map.mp htexts
    rw [TraceRow.texts, current_of_mem_runFrom_empty row hrow]
    rfl

/-- Both runs name the first character outside the alphabet, if the moves last until there. -/
theorem reason_of_leavesAlphabet
    {word : List Char}
    {i : Nat}
    (hi : i < word.length)
    (h : N.Survives N.startSet (word.take i))
    (hout : String.singleton word[i] ∉ N.alphabet) :
    (N.run word).reason = .outsideAlphabet i word[i] ∧
      (N.determinize.run word).reason = .outsideAlphabet i word[i] := by
  have hword : word.take i ++ word[i] :: word.drop (i + 1) = word := by
    rw [← List.drop_eq_getElem_cons hi, List.take_append_drop]
  obtain ⟨hrun, hreason⟩ := run_of_leavesAlphabet h hout (word.drop (i + 1))
  rw [hword, List.length_take_of_le (Nat.le_of_lt hi)] at hreason
  rw [hword] at hrun
  refine ⟨?_, hreason⟩
  rw [hrun, ← hreason]
  rfl

/--
What the runs of a word by an automaton and by its determinization have in common.  The
nondeterministic trace is one row ahead, and goes on where the deterministic one ends at a dead
prefix.
-/
structure TracesAgree
    (N : NFA)
    (word : List Char) :
    Prop where
  head?_traceTexts :
    (N.run word).traceTexts.head?
      =
    some ⟨(StateSet.singleton N.start).braces, "ε", (StateSet.singleton N.start).braces⟩
  isPrefix : (N.determinize.run word).traceTexts <+: (N.run word).traceTexts.tail
  tail_eq_iff :
    (N.run word).traceTexts.tail = (N.determinize.run word).traceTexts
      ↔
    ¬ ∃ part, N.IsDeadPrefix word part
  ends_at_dead_prefix :
    ∀ part, N.IsDeadPrefix word part →
      (∀ other, N.IsDeadPrefix word other → part.length ≤ other.length) →
      (N.determinize.run word).traceTexts.length = part.length ∧
        (∃ row, (N.determinize.run word).traceTexts.getLast? = some row ∧ row.next = "-") ∧
        ∀ row ∈ (N.run word).traceTexts.drop (part.length + 1), row.current = "∅"
  same_reason :
    ∀ (i : Nat) (hi : i < word.length),
      String.singleton word[i] ∉ N.alphabet →
      (∀ c ∈ word.take i, String.singleton c ∈ N.alphabet) →
      N.moveAlong (StateSet.singleton N.start) (wordSymbols (word.take i)) ≠ ∅ →
      (N.run word).reason.message = (N.determinize.run word).reason.message ∧
        (N.run word).reason.message
          =
        "на шаге " ++ Text.numeral i ++ ": символ '" ++ String.singleton word[i]
          ++ "' вне алфавита"

/-- The two runs of every word tell the same story. -/
theorem traces_agree
    (N : NFA)
    (word : List Char) :
    N.TracesAgree word := by
  obtain ⟨later, htexts, hlater⟩ := traceTexts_run_eq N word
  constructor
  · rw [htexts]
    rfl
  · rw [htexts]
    exact List.prefix_append _ _
  · rw [htexts, ← hlater, List.tail_cons, List.append_right_eq_self]
  · exact fun part hpart hshortest => hpart.traceTexts_of_shortest hshortest
  · intro i hi hout hsymbols halive
    obtain ⟨hrun, hrun'⟩ := reason_of_leavesAlphabet hi ⟨hsymbols, halive⟩ hout
    rw [hrun, hrun']
    exact ⟨rfl, rfl⟩

end Agreement

end NFA

end Determinization
