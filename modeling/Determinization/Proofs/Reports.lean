import Mathlib.Data.List.TFAE
import Mathlib.Tactic.TFAE
import Determinization.Proofs.FileText
import Determinization.Table.Transitions

/-!
# Reading back the reports of an automaton

A deterministic automaton is shown to people in two ways besides the file: in a summary, and as a
transition table.  Each cell of the table and each line of the summary can be read in one way only.
A set is written between braces and so ends at its closing brace; a name begins with a brace or
`∅`, hence with neither of the two marks; and the line of an edge by a letter has one character
between the halves of its arrow.

The table lists the alphabet, the states and all moves.  The summary does not list the alphabet and
leaves out the missing moves, but together with the alphabet it determines the result of the
construction, as the file does alone.

**Results.**
* `DFA.table_inj`: the table determines alphabet, states, marks and steps.
* `DFA.summaryLines_inj`: the lines of the summary determine start set, accepting sets and edges.
* `determinize_eq_of_reports_eq`: table, summary and file determine the determinization.
-/

namespace Determinization

section Cells

theorem toList_markedName
    (name : String)
    (isStart isAccepting : Bool) :
    (markedName name isStart isAccepting).toList
      =
    (if isStart then ['→'] else []) ++ ((if isAccepting then ['*'] else []) ++ name.toList) := by
  have hstart : "→".toList = ['→'] := rfl
  have haccepting : "*".toList = ['*'] := rfl
  cases isStart <;> cases isAccepting <;> simp [markedName, hstart, haccepting]

/-- A mark that may stand in front of a text is read back if the text does not begin with it. -/
theorem mark_append_inj
    {mark : Char}
    {isMarked isMarked' : Bool}
    {x y : List Char}
    (hx : x.head? ≠ some mark)
    (hy : y.head? ≠ some mark)
    (h : (if isMarked then [mark] else []) ++ x = (if isMarked' then [mark] else []) ++ y) :
    isMarked = isMarked' ∧ x = y := by
  cases isMarked with
  | false =>
      cases isMarked' with
      | false => exact ⟨rfl, h⟩
      | true => exact absurd (congrArg List.head? h) hx
  | true =>
      cases isMarked' with
      | false => exact absurd (congrArg List.head? h.symm) hy
      | true => exact ⟨rfl, (List.cons.inj h).2⟩

/-- The name begins with neither of the two marks. -/
def IsUnmarked (name : String) : Prop :=
  name.toList.head? ≠ some '→' ∧ name.toList.head? ≠ some '*'

/-- A star in front of an unmarked name hides no arrow. -/
theorem IsUnmarked.head?_ne_arrow
    {name : String}
    (h : IsUnmarked name)
    (isAccepting : Bool) :
    ((if isAccepting then ['*'] else []) ++ name.toList).head? ≠ some '→' := by
  cases isAccepting with
  | false => exact h.1
  | true => simp

/-- The marks and the name are read back from a marked name. -/
theorem markedName_inj
    {name other : String}
    {isStart isAccepting isStart' isAccepting' : Bool}
    (hname : IsUnmarked name)
    (hother : IsUnmarked other)
    (h : markedName name isStart isAccepting = markedName other isStart' isAccepting') :
    name = other ∧ isStart = isStart' ∧ isAccepting = isAccepting' := by
  have hlist := congrArg String.toList h
  rw [toList_markedName, toList_markedName] at hlist
  obtain ⟨hstart, hrest⟩ :=
    mark_append_inj (hname.head?_ne_arrow _) (hother.head?_ne_arrow _) hlist
  obtain ⟨haccepting, hnames⟩ := mark_append_inj hname.2 hother.2 hrest
  exact ⟨String.toList_injective hnames, hstart, haccepting⟩

/-- A marked name begins with the arrow if and only if it is that of a start state. -/
theorem head?_markedName_iff
    {name : String}
    {isStart isAccepting : Bool}
    (hname : IsUnmarked name) :
    (markedName name isStart isAccepting).toList.head? = some '→' ↔ isStart = true := by
  rw [toList_markedName]
  cases isStart with
  | false => simpa using hname.head?_ne_arrow isAccepting
  | true => simp

theorem StateSet.isUnmarked_braces
    (s : StateSet) :
    IsUnmarked s.braces :=
  ⟨s.head?_braces_ne (by decide) (by decide), s.head?_braces_ne (by decide) (by decide)⟩

/-- The marks and the set are read back from the marked name of a set. -/
theorem markedName_braces_inj
    {s t : StateSet}
    {isStart isAccepting isStart' isAccepting' : Bool}
    (h : markedName s.braces isStart isAccepting = markedName t.braces isStart' isAccepting') :
    s = t ∧ isStart = isStart' ∧ isAccepting = isAccepting' :=
  (markedName_inj s.isUnmarked_braces t.isUnmarked_braces h).imp_left fun hnames =>
    StateSet.braces_injective hnames

/-- The target of a move is read back from its cell. -/
theorem targetCell_injective :
    Function.Injective targetCell := by
  intro s t h
  by_cases hs : s = ∅ <;> by_cases ht : t = ∅
  · rw [hs, ht]
  · exact absurd (by simpa [targetCell, hs, ht] using h.symm) t.braces_ne_dash
  · exact absurd (by simpa [targetCell, hs, ht] using h) s.braces_ne_dash
  · exact StateSet.braces_injective (by simpa [targetCell, hs, ht] using h)

end Cells

namespace DFA

variable {D E : DFA}

/-- A row of a table determines its state, the marks of the state, and its steps. -/
theorem tableRow_inj
    (halphabet : D.alphabet = E.alphabet)
    {s t : StateSet}
    (h : D.tableRow s = E.tableRow t) :
    s = t ∧
      D.isAccepting s = E.isAccepting t ∧
      ∀ a ∈ D.alphabet, D.step s a = E.step t a := by
  obtain ⟨hname, hcells⟩ := List.cons.inj h
  obtain ⟨hst, -, haccepting⟩ := markedName_braces_inj hname
  rw [← halphabet] at hcells
  exact ⟨hst, haccepting, fun a ha => targetCell_injective (List.map_inj_left.mp hcells a ha)⟩

/-- A table determines the alphabet, the states, which of them accept, and the steps. -/
theorem table_inj
    (h : D.table = E.table) :
    D.alphabet = E.alphabet ∧
      D.states = E.states ∧
      (∀ s ∈ D.states, D.isAccepting s = E.isAccepting s) ∧
      ∀ s ∈ D.states, ∀ a ∈ D.alphabet, D.step s a = E.step s a := by
  obtain ⟨hheaders, hrows⟩ := TableText.mk.inj h
  have halphabet : D.alphabet = E.alphabet := (List.cons.inj hheaders).2
  have hstates : D.states = E.states :=
    Text.map_inj_of_mem (fun s _ t _ hrow => (tableRow_inj halphabet hrow).1) hrows
  have hrow : ∀ s ∈ D.states, D.tableRow s = E.tableRow s := by
    rw [← hstates] at hrows
    exact List.map_inj_left.mp hrows
  exact ⟨halphabet, hstates, fun s hs => (tableRow_inj halphabet (hrow s hs)).2.1,
    fun s hs => (tableRow_inj halphabet (hrow s hs)).2.2⟩

end DFA

section Summary

theorem Move.toList_summaryLine
    (m : Move) :
    m.summaryLine.toList
      =
    m.source.braces.toList
      ++ [' ', '-', '-'] ++ m.symbol.toList ++ ['-', '-', '>', ' '] ++ m.target.braces.toList := by
  have hleft : " --".toList = [' ', '-', '-'] := rfl
  have hright : "--> ".toList = ['-', '-', '>', ' '] := rfl
  simp [Move.summaryLine, hleft, hright]

/-- An edge by one character is read back from its line in the summary, whatever the character. -/
theorem eq_of_summaryLine_eq
    {m n : Move}
    (hm : Description.IsLetter m.symbol)
    (hn : Description.IsLetter n.symbol)
    (h : m.summaryLine = n.summaryLine) :
    m = n := by
  obtain ⟨source, symbol, target⟩ := m
  obtain ⟨source', symbol', target'⟩ := n
  obtain ⟨c, -, rfl⟩ := hm
  obtain ⟨d, -, rfl⟩ := hn
  have hlist := congrArg String.toList h
  rw [Move.toList_summaryLine, Move.toList_summaryLine] at hlist
  simp only [List.append_assoc] at hlist
  obtain ⟨rfl, hrest⟩ := StateSet.braces_append_inj hlist
  simp only [String.toList_singleton, List.cons_append, List.nil_append, List.cons.injEq,
    true_and] at hrest
  obtain ⟨rfl, htarget⟩ := hrest
  rw [StateSet.braces_injective (String.toList_injective htarget)]

namespace DFA

variable {D E : DFA}

theorem literals_line_braces_inj
    {sets others : List StateSet}
    (h :
      " ".intercalate (sets.map StateSet.braces)
        =
      " ".intercalate (others.map StateSet.braces)) :
    sets = others := by
  have hne : ∀ s : StateSet, s.braces.toList ≠ [] := by
    intro s hs
    rcases s.head?_braces with hhead | hhead <;> simp [hs] at hhead
  exact literals_line_inj hne (fun _ _ _ _ => StateSet.braces_append_inj) h

/-- The lines of the summary determine the states, the start set, the accepting sets and the edges. -/
theorem summaryLines_inj
    (hD : ∀ m ∈ D.edges, Description.IsLetter m.symbol)
    (hE : ∀ m ∈ E.edges, Description.IsLetter m.symbol)
    (h : D.summaryLines = E.summaryLines) :
    D.states = E.states ∧
      D.start = E.start ∧
      D.accepts = E.accepts ∧
      D.edges = E.edges := by
  simp only [summaryLines, List.cons.injEq, String.append_right_inj, true_and] at h
  obtain ⟨hstates, hstart, haccepts, hedges⟩ := h
  exact
    ⟨literals_line_braces_inj hstates,
      StateSet.braces_injective hstart,
      literals_line_braces_inj haccepts,
      Text.map_inj_of_mem (fun m hm n hn => eq_of_summaryLine_eq (hD m hm) (hE n hn)) hedges⟩

/-- No line of the summary has a break. -/
theorem isLine_of_mem_summaryLines
    (hD : ∀ m ∈ D.edges, Description.IsLetter m.symbol) :
    ∀ line ∈ D.summaryLines, Text.IsLine line.toList := by
  have hsets : ∀ sets : List StateSet,
      Text.IsLine (" ".intercalate (sets.map StateSet.braces)).toList := by
    intro sets
    refine Text.isLine_intercalate_space fun text htext => ?_
    obtain ⟨s, -, rfl⟩ := List.mem_map.mp htext
    exact StateSet.isLine_braces s
  intro line hline
  simp only [summaryLines, List.mem_cons] at hline
  rcases hline with rfl | rfl | rfl | rfl | hedge
  · rw [String.toList_append, Text.isLine_append]
    exact ⟨by decide +kernel, hsets _⟩
  · rw [String.toList_append, Text.isLine_append]
    exact ⟨by decide +kernel, StateSet.isLine_braces _⟩
  · rw [String.toList_append, Text.isLine_append]
    exact ⟨by decide +kernel, hsets _⟩
  · decide +kernel
  · obtain ⟨m, hm, rfl⟩ := List.mem_map.mp hedge
    rw [Move.toList_summaryLine]
    simp only [Text.isLine_append]
    exact ⟨⟨⟨⟨StateSet.isLine_braces _, by decide⟩, (hD m hm).isToken.isLine⟩, by decide⟩,
      StateSet.isLine_braces _⟩

/-- The summary of an automaton whose edges are by letters falls apart into its lines. -/
theorem linesOf_summaryText
    (hD : ∀ m ∈ D.edges, Description.IsLetter m.symbol) :
    Description.linesOf D.summaryText.toList = D.summaryLines :=
  linesOf_unlines (isLine_of_mem_summaryLines hD)

end DFA

end Summary

namespace NFA

variable {M N : NFA}

/-- The table of a determinization determines it. -/
theorem determinize_eq_of_table_eq
    (h : M.determinize.table = N.determinize.table) :
    M.determinize = N.determinize := by
  obtain ⟨halphabet, hstates, haccepting, hsteps⟩ := DFA.table_inj h
  have hstart : some M.determinize.start = some N.determinize.start :=
    calc
      some M.determinize.start
        = M.determinize.states.head? := (head?_states M).symm
      _ = N.determinize.states.head? := by rw [hstates]
      _ = some N.determinize.start := head?_states N
  have haccepts : M.determinize.accepts = N.determinize.accepts := by
    rw [accepts_determinize, accepts_determinize, hstates]
    refine List.filter_congr fun s hs => ?_
    have hM : s ∈ M.determinize.states := hstates ▸ hs
    rw [← isAccepting_determinize hM, haccepting s hM, isAccepting_determinize hs]
  refine determinize_eq_of_moves_eq halphabet hstates (Option.some.inj hstart) haccepts ?_
  intro s hs a ha
  have hM : s ∈ M.determinize.states := hstates ▸ hs
  have hsame : M.alphabet = N.alphabet := halphabet
  have hMa : a ∈ M.alphabet := hsame ▸ ha
  have hstep := hsteps s hM a hMa
  rwa [step_eq, step_eq, if_pos ⟨hM, hMa⟩, if_pos ⟨hs, ha⟩] at hstep

/-- The edges of the determinization of an automaton that was read are by letters. -/
theorem isLetter_of_mem_edges
    {lines : List String}
    (hN : Description.read lines = .ok N) :
    ∀ m ∈ N.determinize.edges, Description.IsLetter m.symbol := by
  intro m hm
  exact (Description.describes_of_read hN).isLetter_of_mem_alphabet (mem_edges_iff.mp hm).2.1

/-- The summary of the determinization of an automaton that was read determines it, once the alphabet
is given. -/
theorem determinize_eq_of_summaryText_eq
    {lines others : List String}
    (hM : Description.read lines = .ok M)
    (hN : Description.read others = .ok N)
    (halphabet : M.alphabet = N.alphabet)
    (h : M.determinize.summaryText = N.determinize.summaryText) :
    M.determinize = N.determinize := by
  have hMletters := isLetter_of_mem_edges hM
  have hNletters := isLetter_of_mem_edges hN
  have hlines : M.determinize.summaryLines = N.determinize.summaryLines := by
    rw [← DFA.linesOf_summaryText hMletters, h, DFA.linesOf_summaryText hNletters]
  obtain ⟨-, hstart, haccepts, hedges⟩ := DFA.summaryLines_inj hMletters hNletters hlines
  exact determinize_eq_of_edges_eq halphabet hstart haccepts hedges

/--
Two determinizations with the same table are equal.  If the automata were read and have the same
alphabet, then the summaries of the determinizations are equal, their files are equal, and they
themselves are equal, all three at once or not at all.
-/
theorem determinize_eq_of_reports_eq :
    (∀ M N : NFA, M.determinize.table = N.determinize.table → M.determinize = N.determinize) ∧
    ∀ lines others M N,
      Description.read lines = .ok M →
      Description.read others = .ok N →
      M.alphabet = N.alphabet →
      List.TFAE
        [ M.determinize.summaryText = N.determinize.summaryText,
          M.determinize.fileText = N.determinize.fileText,
          M.determinize = N.determinize ] := by
  refine ⟨fun _ _ => determinize_eq_of_table_eq, ?_⟩
  intro lines others M N hM hN halphabet
  tfae_have 1 → 3 := determinize_eq_of_summaryText_eq hM hN halphabet
  tfae_have 2 → 3 :=
    determinize_eq_of_file_eq (hasTokenAlphabet_of_read hM) (hasTokenAlphabet_of_read hN)
  tfae_have 3 → 1 := congrArg DFA.summaryText
  tfae_have 3 → 2 := congrArg DFA.fileText
  tfae_finish

/-- Two automata with the symbols `-` and `>` that differ in an edge out of reach only. -/
theorem determinize_eq_of_reports_eq_dash :
    ∃ M N : NFA,
      Description.read ["2", "- >", "0", "-1", "0 - -1", "-1 > 0"] = .ok M ∧
      Description.read ["2", "- >", "0", "-1", "0 - -1", "-1 > 0", "7 - 0"] = .ok N ∧
      M ≠ N ∧
      M.determinize.table = N.determinize.table ∧
      M.determinize = N.determinize ∧
      M.determinize.summaryText = N.determinize.summaryText ∧
      M.determinize.fileText = N.determinize.fileText := by
  -- Only these facts about the automata are kept, so nothing below computes their reports.
  obtain ⟨M, N, hM, hN, hne, halphabet, htable⟩ :
      ∃ M N : NFA,
        Description.read ["2", "- >", "0", "-1", "0 - -1", "-1 > 0"] = .ok M ∧
        Description.read ["2", "- >", "0", "-1", "0 - -1", "-1 > 0", "7 - 0"] = .ok N ∧
        M ≠ N ∧
        M.alphabet = N.alphabet ∧
        M.determinize.table = N.determinize.table :=
    ⟨build 2 ["-", ">"] 0 [-1] [⟨0, "-", -1⟩, ⟨-1, ">", 0⟩],
      build 2 ["-", ">"] 0 [-1] [⟨0, "-", -1⟩, ⟨-1, ">", 0⟩, ⟨7, "-", 0⟩],
      by decide +kernel, by decide +kernel, by decide +kernel, by simp [build, assemble],
      by decide +kernel⟩
  obtain ⟨hequal, htfae⟩ := determinize_eq_of_reports_eq
  have hsame := hequal M N htable
  have hreports := htfae _ _ M N hM hN halphabet
  exact ⟨M, N, hM, hN, hne, htable, hsame, (hreports.out 2 0).mp hsame, (hreports.out 2 1).mp hsame⟩

end NFA
end Determinization
