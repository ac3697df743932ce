import Determinization.Proofs.Text.Literal
import Determinization.Proofs.Traces

/-!
# Runs on longer words

Both kinds of automata walk through a word in the same way: from a set and a character they get to a
next set, or end there.  They differ in the moves that they have.  A nondeterministic automaton has
one by every symbol of its alphabet, perhaps to the empty set; a deterministic one has a move only
where its step is not empty.  Nothing is assumed about the table of a deterministic automaton.

What a walk does before it ends does not depend on what follows.  If it ends early, the rest of the
word is never looked at; if it reaches the end of the word, only its closing row makes way for
further ones.

**Results.**
* `Walk.runFrom_append_of_reach` and `Walk.runFrom_append_of_ends`: how a walk reads a longer word.
* `Walk.isPrefixStable`: what this says about runs, for any walk.
* `runs_prefixStable`: both kinds of automata walk in this way.
-/

namespace Determinization

/-- The reason is given before the end of the word. -/
def Reason.IsEarly : Reason → Prop
  | .outsideAlphabet _ _ => True
  | .noMove _ _ _ => True
  | .meetsAccepting => False
  | .missesAccepting => False
  | .endedAccepting _ => False
  | .endedRejecting _ => False

theorem Reason.IsEarly.accepted_eq_false
    {reason : Reason}
    (h : reason.IsEarly) :
    reason.accepted = false := by
  cases reason with
  | outsideAlphabet | noMove => rfl
  | meetsAccepting | missesAccepting | endedAccepting | endedRejecting => exact h.elim

/-- The next row stands in the set that the row before it got to; no set is the empty set. -/
def TraceTexts.Leads (row later : TraceTexts) : Prop :=
  later.current = if row.next = "-" then "∅" else row.next

/--
How runs on a word and on a longer one agree, for runs that end early on some words, and that have a
number of rows besides those of the characters if they do not.
-/
structure IsPrefixStable
    (run : List Char → Run)
    (EndsEarly : List Char → Prop)
    (extraRows : Nat) :
    Prop where
  isEarly_iff : ∀ word, (run word).reason.IsEarly ↔ EndsEarly word
  same_run :
    ∀ u v, EndsEarly u →
      run (u ++ v) = run u ∧ (run u).accepted = false
  closes :
    ∀ word, ¬ EndsEarly word →
      ∃ s, (run word).trace.getLast? = some (TraceRow.stay s)
  dropLast_prefix :
    ∀ u v, ¬ EndsEarly u →
      (run u).trace.dropLast <+: (run (u ++ v)).trace
  isChain : ∀ word, (run word).traceTexts.IsChain TraceTexts.Leads
  length_trace :
    ∀ word, ¬ EndsEarly word →
      (run word).trace.length = word.length + extraRows

/-- A way to walk through words: the next set, if there is one, and the reasons for which a walk
ends early and at the end of the word. -/
structure Walk where
  next : StateSet → Char → Option StateSet
  early : Nat → StateSet → Char → Reason
  ended : StateSet → Reason
  isEarly_early : ∀ step s c, (early step s c).IsEarly
  not_isEarly_ended : ∀ s, ¬ (ended s).IsEarly

namespace Walk

variable {W : Walk}

/-- The rest of a run that stands in a set before the given step. -/
def runFrom
    (W : Walk) :
    Nat → StateSet → List Char → Run
  | _, s, [] => ⟨[TraceRow.stay s], W.ended s⟩
  | step, s, c :: word =>
      match W.next s c with
      | some t => (W.runFrom (step + 1) t word).cons (TraceRow.read s c t)
      | none => ⟨[TraceRow.stuck s c], W.early step s c⟩

/-- The set that the walk gets to along a word, if it does not end before. -/
def reach
    (W : Walk) :
    StateSet → List Char → Option StateSet
  | s, [] => some s
  | s, c :: word => (W.next s c).bind fun t => W.reach t word

theorem runFrom_cons_of_some
    {step : Nat}
    {s t : StateSet}
    {c : Char}
    (h : W.next s c = some t)
    (word : List Char) :
    W.runFrom step s (c :: word) = (W.runFrom (step + 1) t word).cons (TraceRow.read s c t) := by
  rw [runFrom, h]

theorem runFrom_cons_of_none
    {step : Nat}
    {s : StateSet}
    {c : Char}
    (h : W.next s c = none)
    (word : List Char) :
    W.runFrom step s (c :: word) = ⟨[TraceRow.stuck s c], W.early step s c⟩ := by
  rw [runFrom, h]

/-- A walk that gets along the first word reads the second one from there. -/
theorem runFrom_append_of_reach
    (step : Nat)
    {s t : StateSet}
    {u : List Char}
    (h : W.reach s u = some t) :
    ∃ rows : List TraceRow,
      rows.length = u.length ∧
      ∀ v, W.runFrom step s (u ++ v) = (W.runFrom (step + u.length) t v).prepend rows := by
  induction u generalizing step s with
  | nil =>
      cases h
      exact ⟨[], rfl, fun _ => rfl⟩
  | cons c u ih =>
      obtain ⟨r, hnext, hrest⟩ := Option.bind_eq_some_iff.mp h
      obtain ⟨rows, hlength, hrows⟩ := ih (step + 1) hrest
      refine ⟨TraceRow.read s c r :: rows, by simp [hlength], fun v => ?_⟩
      rw [List.cons_append, runFrom_cons_of_some hnext, hrows, List.length_cons, Nat.add_assoc,
        Nat.add_comm 1]
      rfl

/-- A walk that ends early on the first word does not see the second. -/
theorem runFrom_append_of_ends
    (step : Nat)
    {s : StateSet}
    {u : List Char}
    (h : W.reach s u = none)
    (v : List Char) :
    W.runFrom step s (u ++ v) = W.runFrom step s u ∧ (W.runFrom step s u).reason.IsEarly := by
  induction u generalizing step s with
  | nil => cases h
  | cons c u ih =>
      cases hnext : W.next s c with
      | none =>
          rw [List.cons_append, runFrom_cons_of_none hnext, runFrom_cons_of_none hnext]
          exact ⟨rfl, W.isEarly_early step s c⟩
      | some t =>
          rw [reach, hnext, Option.bind_some] at h
          obtain ⟨hsame, hearly⟩ := ih (step + 1) h
          rw [List.cons_append, runFrom_cons_of_some hnext, runFrom_cons_of_some hnext, hsame]
          exact ⟨rfl, hearly⟩

theorem isEarly_iff
    {step : Nat}
    {s : StateSet}
    {word : List Char} :
    (W.runFrom step s word).reason.IsEarly ↔ W.reach s word = none := by
  constructor
  · intro hearly
    by_contra hreach
    obtain ⟨t, ht⟩ := Option.ne_none_iff_exists'.mp hreach
    obtain ⟨rows, -, hrows⟩ := runFrom_append_of_reach step ht
    have hrun := hrows []
    rw [List.append_nil] at hrun
    rw [hrun] at hearly
    exact W.not_isEarly_ended t hearly
  · intro hreach
    exact (runFrom_append_of_ends step hreach []).2

/-- The first row stands in the set from which the walk begins. -/
theorem exists_head_runFrom
    (step : Nat)
    (s : StateSet)
    (word : List Char) :
    ∃ row rest, (W.runFrom step s word).trace = row :: rest ∧ row.current = s := by
  cases word with
  | nil => exact ⟨_, _, rfl, rfl⟩
  | cons c word =>
      cases hnext : W.next s c with
      | none => exact ⟨_, _, congrArg Run.trace (runFrom_cons_of_none hnext word), rfl⟩
      | some t => exact ⟨_, _, congrArg Run.trace (runFrom_cons_of_some hnext word), rfl⟩

end Walk

/-- A row that gets to a set leads to a row that stands in it. -/
theorem TraceTexts.leads_of_next
    {row later : TraceRow}
    (h : later.current = row.next.getD ∅) :
    row.texts.Leads later.texts := by
  obtain ⟨current, symbol, next⟩ := row
  cases next with
  | none => exact congrArg StateSet.braces h
  | some s =>
      have hset : later.texts.current = s.braces := congrArg StateSet.braces h
      rw [TraceTexts.Leads, hset]
      exact (if_neg (StateSet.braces_ne_dash s)).symm

/-- A row in front is linked to the run that goes on from where it gets to. -/
theorem Run.isChain_cons
    {row first : TraceRow}
    {rest : List TraceRow}
    {r : Run}
    (hr : r.traceTexts.IsChain TraceTexts.Leads)
    (htrace : r.trace = first :: rest)
    (hfirst : first.current = row.next.getD ∅) :
    (r.cons row).traceTexts.IsChain TraceTexts.Leads := by
  have htexts : (r.cons row).traceTexts = row.texts :: first.texts :: rest.map TraceRow.texts := by
    rw [traceTexts, cons, htrace]
    rfl
  rw [htexts, List.isChain_cons_cons]
  refine ⟨TraceTexts.leads_of_next hfirst, ?_⟩
  rwa [traceTexts, htrace] at hr

namespace Walk

variable {W : Walk}

theorem isChain_runFrom
    (step : Nat)
    (s : StateSet)
    (word : List Char) :
    (W.runFrom step s word).traceTexts.IsChain TraceTexts.Leads := by
  induction word generalizing step s with
  | nil => exact List.isChain_singleton _
  | cons c word ih =>
      cases hnext : W.next s c with
      | none =>
          rw [runFrom_cons_of_none hnext]
          exact List.isChain_singleton _
      | some t =>
          rw [runFrom_cons_of_some hnext]
          obtain ⟨first, rest, htrace, hfirst⟩ := exists_head_runFrom (W := W) (step + 1) t word
          refine Run.isChain_cons (ih (step + 1) t) htrace ?_
          rw [hfirst, TraceRow.read]
          split
          · next hempty => simpa using hempty
          · rfl

theorem isPrefixStable
    (W : Walk)
    (s : StateSet) :
    IsPrefixStable (W.runFrom 0 s) (fun word => W.reach s word = none) 1 := by
  have hreached : ∀ word, ¬ W.reach s word = none →
      ∃ rows t, rows.length = word.length ∧
        (W.runFrom 0 s word).trace = rows ++ [TraceRow.stay t] ∧
        ∀ v, rows <+: (W.runFrom 0 s (word ++ v)).trace := by
    intro word hword
    obtain ⟨t, ht⟩ := Option.ne_none_iff_exists'.mp hword
    obtain ⟨rows, hlength, hrows⟩ := runFrom_append_of_reach 0 ht
    refine ⟨rows, t, hlength, ?_, fun v => ?_⟩
    · have hrun := hrows []
      rw [List.append_nil] at hrun
      rw [hrun]
      rfl
    · rw [hrows v]
      exact List.prefix_append _ _
  refine
    { isEarly_iff := fun word => isEarly_iff
      same_run := fun u v hu => ?_
      closes := fun word hword => ?_
      dropLast_prefix := fun u v hu => ?_
      isChain := fun word => isChain_runFrom 0 s word
      length_trace := fun word hword => ?_ }
  · obtain ⟨hsame, hearly⟩ := runFrom_append_of_ends 0 hu v
    exact ⟨hsame, hearly.accepted_eq_false⟩
  · obtain ⟨rows, t, -, htrace, -⟩ := hreached word hword
    exact ⟨t, by rw [htrace, List.getLast?_concat]⟩
  · obtain ⟨rows, t, -, htrace, hprefix⟩ := hreached u hu
    rw [htrace, List.dropLast_concat]
    exact hprefix v
  · obtain ⟨rows, t, hlength, htrace, -⟩ := hreached word hword
    rw [htrace, List.length_append, hlength, List.length_singleton]

end Walk

/-- An opening row in front of all runs changes nothing but the number of rows. -/
theorem IsPrefixStable.opened
    {run : List Char → Run}
    {EndsEarly : List Char → Prop}
    {extraRows : Nat}
    (h : IsPrefixStable run EndsEarly extraRows)
    {s : StateSet}
    (hhead : ∀ word, ∃ row rest, (run word).trace = row :: rest ∧ row.current = s) :
    IsPrefixStable (fun word => (run word).cons (TraceRow.stay s)) EndsEarly (extraRows + 1) := by
  have hne : ∀ word, (run word).trace ≠ [] := by
    intro word hnil
    obtain ⟨row, rest, htrace, -⟩ := hhead word
    rw [hnil] at htrace
    cases htrace
  refine
    { isEarly_iff := h.isEarly_iff
      same_run := fun u v hu => ?_
      closes := fun word hword => ?_
      dropLast_prefix := fun u v hu => ?_
      isChain := fun word => ?_
      length_trace := fun word hword => ?_ }
  · obtain ⟨hsame, hrejected⟩ := h.same_run u v hu
    exact ⟨congrArg (Run.cons (TraceRow.stay s)) hsame, hrejected⟩
  · obtain ⟨t, ht⟩ := h.closes word hword
    exact ⟨t, by rw [Run.cons, List.getLast?_cons_of_ne_nil (hne word), ht]⟩
  · rw [Run.cons, Run.cons, List.dropLast_cons_of_ne_nil (hne u)]
    exact List.prefix_cons_inj _ |>.mpr (h.dropLast_prefix u v hu)
  · obtain ⟨row, rest, htrace, hrow⟩ := hhead word
    exact Run.isChain_cons (h.isChain word) htrace hrow
  · rw [Run.cons, List.length_cons, h.length_trace word hword, Nat.add_assoc]

namespace NFA

/-- A nondeterministic run ends early on a word with a character outside the alphabet. -/
def EndsEarly
    (N : NFA)
    (word : List Char) :
    Prop :=
  ∃ c ∈ word, String.singleton c ∉ N.alphabet

/-- The walk of a nondeterministic automaton has a move by every symbol. -/
def walk (N : NFA) : Walk where
  next s c := if inAlphabet N.alphabet c then some (N.move s (String.singleton c)) else none
  early step _ c := .outsideAlphabet step c
  ended s := if s.meets N.accepts then .meetsAccepting else .missesAccepting
  isEarly_early _ _ _ := trivial
  not_isEarly_ended s := by
    split <;> exact id

variable {N : NFA}

theorem runFrom_eq_walk
    (step : Nat)
    (s : StateSet)
    (word : List Char) :
    N.runFrom step s word = N.walk.runFrom step s word := by
  induction word generalizing step s with
  | nil => rfl
  | cons c word ih =>
      by_cases hc : String.singleton c ∈ N.alphabet
      · have hnext : N.walk.next s c = some (N.move s (String.singleton c)) :=
          if_pos (inAlphabet_iff.mpr hc)
        rw [runFrom_cons_of_mem hc, Walk.runFrom_cons_of_some hnext, ih]
      · have hnext : N.walk.next s c = none := if_neg (mt inAlphabet_iff.mp hc)
        rw [runFrom_cons_of_not_mem hc, Walk.runFrom_cons_of_none hnext]
        rfl

theorem reach_walk_eq_none_iff
    {s : StateSet}
    {word : List Char} :
    N.walk.reach s word = none ↔ N.EndsEarly word := by
  induction word generalizing s with
  | nil => simp [Walk.reach, EndsEarly]
  | cons c word ih =>
      rw [EndsEarly, List.exists_mem_cons_iff]
      by_cases hc : String.singleton c ∈ N.alphabet
      · have hnext : N.walk.next s c = some (N.move s (String.singleton c)) :=
          if_pos (inAlphabet_iff.mpr hc)
        rw [Walk.reach, hnext, Option.bind_some, ih, or_iff_right (not_not.mpr hc), EndsEarly]
      · have hnext : N.walk.next s c = none := if_neg (mt inAlphabet_iff.mp hc)
        rw [Walk.reach, hnext, Option.bind_none]
        exact iff_of_true rfl (Or.inl hc)

theorem run_isPrefixStable
    (N : NFA) :
    IsPrefixStable N.run N.EndsEarly 2 := by
  have hwalk := (N.walk.isPrefixStable N.startSet).opened (Walk.exists_head_runFrom 0 N.startSet)
  have hrun :
      N.run = fun word => (N.walk.runFrom 0 N.startSet word).cons (TraceRow.stay N.startSet) := by
    funext word
    rw [← runFrom_eq_walk]
    rfl
  have hends : N.EndsEarly = fun word => N.walk.reach N.startSet word = none :=
    funext fun _ => propext reach_walk_eq_none_iff.symm
  rw [hrun, hends]
  exact hwalk

end NFA

namespace DFA

/-- A deterministic run ends early at a character outside the alphabet or by an empty step. -/
inductive EndsEarly
    (D : DFA) :
    StateSet → List Char → Prop
  | outside {s : StateSet} {c : Char} {word : List Char} :
      String.singleton c ∉ D.alphabet →
      EndsEarly D s (c :: word)
  | noMove {s : StateSet} {c : Char} {word : List Char} :
      D.step s (String.singleton c) = ∅ →
      EndsEarly D s (c :: word)
  | later {s : StateSet} {c : Char} {word : List Char} :
      EndsEarly D (D.step s (String.singleton c)) word →
      EndsEarly D s (c :: word)

/-- The walk of a deterministic automaton has a move where the step is not empty. -/
def walk (D : DFA) : Walk where
  next s c :=
    if inAlphabet D.alphabet c ∧ D.step s (String.singleton c) ≠ ∅ then
      some (D.step s (String.singleton c))
    else
      none
  early step s c :=
    if inAlphabet D.alphabet c then .noMove step s c else .outsideAlphabet step c
  ended s := if D.isAccepting s then .endedAccepting s else .endedRejecting s
  isEarly_early _ _ _ := by
    split <;> trivial
  not_isEarly_ended s := by
    split <;> exact id

variable {D : DFA}

theorem runFrom_eq_walk
    (step : Nat)
    (s : StateSet)
    (word : List Char) :
    D.runFrom step s word = D.walk.runFrom step s word := by
  induction word generalizing step s with
  | nil => rfl
  | cons c word ih =>
      rw [runFrom]
      by_cases hc : inAlphabet D.alphabet c = true
      · by_cases hempty : D.step s (String.singleton c) = ∅
        · have hnext : D.walk.next s c = none := if_neg fun h => h.2 hempty
          rw [Walk.runFrom_cons_of_none hnext, if_pos hc, hempty]
          simp [walk, hc, TraceRow.read, TraceRow.stuck]
        · have hnext : D.walk.next s c = some (D.step s (String.singleton c)) :=
            if_pos ⟨hc, hempty⟩
          rw [Walk.runFrom_cons_of_some hnext, if_pos hc, ← ih]
          simp [Std.ExtTreeSet.isEmpty_iff, hempty]
      · have hnext : D.walk.next s c = none := if_neg fun h => hc h.1
        rw [Walk.runFrom_cons_of_none hnext, if_neg hc]
        simp [walk, hc]

theorem not_endsEarly_nil
    (s : StateSet) :
    ¬ D.EndsEarly s [] := by
  rintro ⟨⟩

theorem endsEarly_cons_iff
    {s : StateSet}
    {c : Char}
    {word : List Char} :
    D.EndsEarly s (c :: word)
      ↔
    String.singleton c ∉ D.alphabet ∨
      D.step s (String.singleton c) = ∅ ∨
      D.EndsEarly (D.step s (String.singleton c)) word := by
  constructor
  · intro h
    cases h with
    | outside hc => exact Or.inl hc
    | noMove hempty => exact Or.inr (Or.inl hempty)
    | later hrest => exact Or.inr (Or.inr hrest)
  · rintro (hc | hempty | hrest)
    · exact .outside hc
    · exact .noMove hempty
    · exact .later hrest

theorem reach_walk_eq_none_iff
    {s : StateSet}
    {word : List Char} :
    D.walk.reach s word = none ↔ D.EndsEarly s word := by
  induction word generalizing s with
  | nil => exact iff_of_false (by simp [Walk.reach]) (not_endsEarly_nil s)
  | cons c word ih =>
      rw [endsEarly_cons_iff]
      by_cases hmove :
          inAlphabet D.alphabet c = true ∧ D.step s (String.singleton c) ≠ ∅
      · have hnext : D.walk.next s c = some (D.step s (String.singleton c)) := if_pos hmove
        obtain ⟨hc, hne⟩ := hmove
        rw [Walk.reach, hnext, Option.bind_some, ih,
          or_iff_right (not_not.mpr (NFA.inAlphabet_iff.mp hc)), or_iff_right hne]
      · have hnext : D.walk.next s c = none := if_neg hmove
        rw [Walk.reach, hnext, Option.bind_none]
        refine iff_of_true rfl ?_
        rw [not_and_or, NFA.inAlphabet_iff, not_not] at hmove
        exact hmove.imp_right Or.inl

theorem run_isPrefixStable
    (D : DFA) :
    IsPrefixStable D.run (D.EndsEarly D.start) 1 := by
  have hrun : D.run = D.walk.runFrom 0 D.start :=
    funext fun word => runFrom_eq_walk 0 D.start word
  have hends : D.EndsEarly D.start = fun word => D.walk.reach D.start word = none :=
    funext fun _ => propext reach_walk_eq_none_iff.symm
  rw [hrun, hends]
  exact D.walk.isPrefixStable D.start

end DFA

/-- The runs of all automata are prefix-stable, those of automata made by hand included. -/
theorem runs_prefixStable :
    (∀ N : NFA, IsPrefixStable N.run N.EndsEarly 2) ∧
      ∀ D : DFA, IsPrefixStable D.run (D.EndsEarly D.start) 1 :=
  ⟨NFA.run_isPrefixStable, DFA.run_isPrefixStable⟩

/-- An automaton with a repeated state that starts in the empty set, which has a row, and gets from
there to a set without one. -/
theorem runs_prefixStable_emptyStart :
    ∃ D : DFA,
      D.states = [∅, ∅] ∧
      D.start = ∅ ∧
      D.step ∅ "a" ≠ ∅ ∧
      D.run ['a', 'b', 'c'] = D.run ['a', 'b'] ∧
      (D.run ['a']).trace.dropLast <+: (D.run ['a', 'b']).trace ∧
      (D.run ['a']).trace.length = 2 := by
  let row : MoveRow := OrderedMap.ofList [("a", StateSet.ofList [0])]
  let D : DFA := ⟨[∅, ∅], ["a", "b"], OrderedMap.ofList [(∅, row)], ∅, [∅]⟩
  have hstable := runs_prefixStable.2 D
  have hmove : D.step ∅ "a" ≠ ∅ := by
    decide +kernel
  have hends : D.EndsEarly ∅ ['a', 'b'] := .later (.noMove (by decide +kernel))
  have hreaches : ¬ D.EndsEarly ∅ ['a'] := by
    rw [DFA.endsEarly_cons_iff]
    rintro (houtside | hempty | hrest)
    · exact houtside (by decide)
    · exact hmove hempty
    · exact DFA.not_endsEarly_nil _ hrest
  exact ⟨D, rfl, rfl, hmove, (hstable.same_run _ ['c'] hends).1,
    hstable.dropLast_prefix _ ['b'] hreaches, hstable.length_trace _ hreaches⟩

end Determinization
