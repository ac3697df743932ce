import Determinization.Listing
import Determinization.Proofs.Accessible
import Determinization.Proofs.Reading
import Determinization.Proofs.Text.Literal

/-!
# Reading back the file of an automaton

The file of a deterministic automaton has a line for the number of states, one for the
alphabet, one for the start set, one for the accepting sets, and one for each edge.  If the
symbols are nonempty and have no blanks, each line can be read in one way only: a literal ends
at its closing bracket, and a symbol at the next space.

The file lists neither the states nor the missing moves.  For an automaton made by the
construction both follow from the rest: the states are the first occurrences of sets at the
ends of edges, after the start set, and a move without an edge is empty.

**Results.**
* `linesOf_fileText`: the file consists of its lines.
* `eq_of_fileLine_eq` and `fileLines_inj`: each line, and the list of all lines, is read back.
* `determinize_eq_of_edges_eq`: start set, alphabet, accepting sets and edges determine the
  automaton that the construction makes.
* `determinize_eq_of_fileText_eq`: the file determines it.
-/

namespace Determinization

/-- Every symbol of the alphabet is a nonempty text without blanks. -/
def NFA.HasTokenAlphabet (N : NFA) : Prop :=
  ∀ a ∈ N.alphabet, Text.IsToken a.toList

/-- Every symbol of the alphabet and of the edges is a nonempty text without blanks. -/
structure DFA.HasTokenSymbols (D : DFA) : Prop where
  alphabet : ∀ a ∈ D.alphabet, Text.IsToken a.toList
  edges : ∀ m ∈ D.edges, Text.IsToken m.symbol.toList

/-- The symbols of the edges are symbols of the alphabet. -/
theorem NFA.HasTokenAlphabet.hasTokenSymbols
    {N : NFA}
    (h : N.HasTokenAlphabet) :
    N.determinize.HasTokenSymbols where
  alphabet := h
  edges m hm := h m.symbol (NFA.mem_edges_iff.mp hm).2.1

/-- The lines of a text are recovered if none of them has a break. -/
theorem linesOf_unlines
    {lines : List String}
    (hlines : ∀ line ∈ lines, Text.IsLine line.toList) :
    Description.linesOf (unlines lines).toList = lines := by
  induction lines with
  | nil => rfl
  | cons line lines ih =>
      have hrest := ih fun other hother => hlines other (List.mem_cons_of_mem line hother)
      rw [Description.linesOf] at hrest ⊢
      rw [toList_unlines_cons,
        Text.splitLines_append_break (hlines line List.mem_cons_self) (by decide) (by simp),
        List.map_cons, String.ofList_toList, hrest]

/-- A line of an edge is the literal of its source, its symbol and the literal of its target. -/
theorem Move.toList_fileLine
    (m : Move) :
    m.fileLine.toList
      =
    m.source.brackets.toList ++ ' ' :: (m.symbol.toList ++ ' ' :: m.target.brackets.toList) := by
  have hspace : (" " : String).toList = [' '] := rfl
  simp [Move.fileLine, hspace]

/-- Edges whose symbols have no space are read back from their lines. -/
theorem eq_of_fileLine_eq
    {m n : Move}
    (hm : ' ' ∉ m.symbol.toList)
    (hn : ' ' ∉ n.symbol.toList)
    (h : m.fileLine = n.fileLine) :
    m = n := by
  have hlist := congrArg String.toList h
  rw [Move.toList_fileLine, Move.toList_fileLine] at hlist
  obtain ⟨hsource, hrest⟩ := StateSet.brackets_append_inj hlist
  obtain ⟨hsymbol, htarget⟩ := (Text.append_cons_inj hm hn).mp (List.cons.inj hrest).2
  obtain ⟨source, symbol, target⟩ := m
  obtain ⟨source', symbol', target'⟩ := n
  cases hsource
  cases String.toList_injective hsymbol
  cases StateSet.brackets_injective (String.toList_injective htarget)
  rfl

/--
An edge whose symbol is a token is read back even against edges by any single character.  The
space is no exception: the line has two of them in a row only if the symbol begins with one.
-/
theorem eq_of_fileLine_eq_singleton
    {m : Move}
    {s t : StateSet}
    {c : Char}
    (hm : Text.IsToken m.symbol.toList)
    (h : m.fileLine = Move.fileLine ⟨s, String.singleton c, t⟩) :
    m = ⟨s, String.singleton c, t⟩ := by
  by_cases hc : c = ' '
  · subst hc
    have hlist := congrArg String.toList h
    rw [Move.toList_fileLine, Move.toList_fileLine] at hlist
    have hrest := (List.cons.inj (StateSet.brackets_append_inj hlist).2).2
    obtain ⟨d, symbol, hsymbol⟩ := List.exists_cons_of_ne_nil hm.1
    have hd : d = ' ' := by
      simpa [hsymbol] using congrArg List.head? hrest
    exact absurd (by simp [hsymbol, hd]) hm.space_not_mem
  · refine eq_of_fileLine_eq hm.space_not_mem ?_ h
    simpa [eq_comm] using hc

namespace DFA

variable {D E : DFA}

theorem isLine_of_mem_fileLines
    (hD : D.HasTokenSymbols) :
    ∀ line ∈ D.fileLines, Text.IsLine line.toList := by
  intro line hline
  simp only [fileLines, List.mem_cons] at hline
  rcases hline with rfl | rfl | rfl | rfl | hedge
  · exact Text.isLine_numeral _
  · exact Text.isLine_intercalate_space fun a ha => (hD.alphabet a ha).isLine
  · exact StateSet.isLine_brackets _
  · refine Text.isLine_intercalate_space fun text htext => ?_
    obtain ⟨s, -, rfl⟩ := List.mem_map.mp htext
    exact StateSet.isLine_brackets s
  · obtain ⟨m, hm, rfl⟩ := List.mem_map.mp hedge
    intro c hc
    rw [Move.toList_fileLine] at hc
    simp only [List.mem_append, List.mem_cons] at hc
    rcases hc with hc | rfl | hc | rfl | hc
    · exact StateSet.isLine_brackets _ c hc
    · decide
    · exact (hD.edges m hm).isLine c hc
    · decide
    · exact StateSet.isLine_brackets _ c hc

theorem linesOf_fileText
    (hD : D.HasTokenSymbols) :
    Description.linesOf D.fileText.toList = D.fileLines :=
  linesOf_unlines (isLine_of_mem_fileLines hD)

/-- Sets are read back from a line of literals if a literal determines its set whatever follows. -/
theorem literals_line_inj
    {literal : StateSet → String}
    (hne : ∀ s, (literal s).toList ≠ [])
    (happend :
      ∀ s t u v, (literal s).toList ++ u = (literal t).toList ++ v → s = t ∧ u = v)
    {sets others : List StateSet}
    (h : " ".intercalate (sets.map literal) = " ".intercalate (others.map literal)) :
    sets = others := by
  have hinjective : Function.Injective fun s : StateSet => (literal s).toList := by
    intro s t hst
    exact (happend s t [] [] (congrArg (· ++ []) hst)).1
  have hseparable : Text.Separable (fun text => ∃ s, (literal s).toList = text) [' '] := by
    rintro _ _ u v ⟨s, rfl⟩ ⟨t, rfl⟩ - - htexts
    rw [(happend s t u v htexts).1]
  have htexts : ∀ text, (∃ s, (literal s).toList = text) → text ≠ [] := by
    rintro _ ⟨s, rfl⟩
    exact hne s
  have hlist := congrArg String.toList h
  rw [String.toList_intercalate, String.toList_intercalate, List.map_map, List.map_map] at hlist
  exact Text.intercalate_map_inj hinjective hseparable (by simp) htexts
    (fun s _ => ⟨s, rfl⟩) (fun s _ => ⟨s, rfl⟩) hlist

/-- The literals of a list of sets are read back from their line. -/
theorem accepts_line_inj
    {sets others : List StateSet}
    (h :
      " ".intercalate (sets.map StateSet.brackets)
        =
      " ".intercalate (others.map StateSet.brackets)) :
    sets = others := by
  have hne : ∀ s : StateSet, s.brackets.toList ≠ [] := by
    intro s
    simp [StateSet.toList_brackets]
  exact literals_line_inj hne (fun _ _ _ _ => StateSet.brackets_append_inj) h

theorem alphabet_line_inj
    {symbols others : List Symbol}
    (hsymbols : ∀ a ∈ symbols, Text.IsToken a.toList)
    (hothers : ∀ a ∈ others, Text.IsToken a.toList)
    (h : " ".intercalate symbols = " ".intercalate others) :
    symbols = others := by
  have hseparable : Text.Separable Text.IsToken [' '] :=
    Text.separable_of_not_mem fun _ htoken => htoken.space_not_mem
  have hlist := congrArg String.toList h
  rw [String.toList_intercalate, String.toList_intercalate] at hlist
  exact Text.intercalate_map_inj (fun _ _ => String.toList_injective) hseparable (by simp)
    (fun _ htoken => htoken.1) hsymbols hothers hlist

theorem edges_lines_inj
    {edges others : List Move}
    (hedges : ∀ m ∈ edges, Text.IsToken m.symbol.toList)
    (hothers : ∀ m ∈ others, Text.IsToken m.symbol.toList)
    (h : edges.map Move.fileLine = others.map Move.fileLine) :
    edges = others :=
  Text.map_inj_of_mem (fun m hm n hn hline =>
    eq_of_fileLine_eq (hedges m hm).space_not_mem (hothers n hn).space_not_mem hline) h

/-- The lines of the file determine alphabet, start set, accepting sets and edges. -/
theorem fileLines_inj
    (hD : D.HasTokenSymbols)
    (hE : E.HasTokenSymbols)
    (h : D.fileLines = E.fileLines) :
    D.alphabet = E.alphabet ∧
      D.start = E.start ∧
      D.accepts = E.accepts ∧
      D.edges = E.edges := by
  simp only [fileLines, List.cons.injEq] at h
  obtain ⟨-, halphabet, hstart, haccepts, hedges⟩ := h
  exact
    ⟨alphabet_line_inj hD.alphabet hE.alphabet halphabet,
      StateSet.brackets_injective hstart,
      accepts_line_inj haccepts,
      edges_lines_inj hD.edges hE.edges hedges⟩

end DFA

namespace NFA

variable {M N : NFA}

/-- An automaton that was read has one-character symbols that are no blanks. -/
theorem hasTokenAlphabet_of_read
    {lines : List String}
    (h : Description.read lines = .ok N) :
    N.HasTokenAlphabet := by
  intro a ha
  exact ((Description.describes_of_read h).isLetter_of_mem_alphabet ha).isToken

/-- A move of a determinization is the target of its edge, and empty if there is none. -/
theorem move_eq_of_edges_eq
    (halphabet : M.alphabet = N.alphabet)
    (hstates : M.determinize.states = N.determinize.states)
    (hedges : M.determinize.edges = N.determinize.edges)
    {s : StateSet}
    (hs : s ∈ N.determinize.states)
    {a : Symbol}
    (ha : a ∈ N.alphabet) :
    M.move s a = N.move s a := by
  by_cases hempty : M.move s a = ∅
  · by_contra hne
    have hedge : ⟨s, a, N.move s a⟩ ∈ N.determinize.edges :=
      mem_edges_iff.mpr ⟨hs, ha, rfl, fun h => hne (hempty.trans h.symm)⟩
    rw [← hedges] at hedge
    exact hne (mem_edges_iff.mp hedge).2.2.1.symm
  · have hedge : ⟨s, a, M.move s a⟩ ∈ M.determinize.edges :=
      mem_edges_iff.mpr ⟨hstates ▸ hs, halphabet ▸ ha, rfl, hempty⟩
    rw [hedges] at hedge
    exact (mem_edges_iff.mp hedge).2.2.1

/--
Determinizations with the same alphabet, start set, accepting sets and edges are equal: the
states are the first occurrences of the ends of edges, and the moves without an edge are empty.
-/
theorem determinize_eq_of_edges_eq
    (halphabet : M.determinize.alphabet = N.determinize.alphabet)
    (hstart : M.determinize.start = N.determinize.start)
    (haccepts : M.determinize.accepts = N.determinize.accepts)
    (hedges : M.determinize.edges = N.determinize.edges) :
    M.determinize = N.determinize := by
  have hstates : M.determinize.states = N.determinize.states := by
    rw [states_eq_eraseDups_targets, hstart, hedges, ← states_eq_eraseDups_targets]
  exact determinize_eq_of_moves_eq halphabet hstates hstart haccepts fun s hs a ha =>
    move_eq_of_edges_eq halphabet hstates hedges hs ha

/-- The file of a determinization determines it, if the symbols have no blanks. -/
theorem determinize_eq_of_file_eq
    (hM : M.HasTokenAlphabet)
    (hN : N.HasTokenAlphabet)
    (h : M.determinize.fileText = N.determinize.fileText) :
    M.determinize = N.determinize := by
  have hlines : M.determinize.fileLines = N.determinize.fileLines := by
    rw [← DFA.linesOf_fileText hM.hasTokenSymbols, h, DFA.linesOf_fileText hN.hasTokenSymbols]
  obtain ⟨halphabet, hstart, haccepts, hedges⟩ :=
    DFA.fileLines_inj hM.hasTokenSymbols hN.hasTokenSymbols hlines
  exact determinize_eq_of_edges_eq halphabet hstart haccepts hedges

/--
Automata that are read have symbols without blanks, and for any two automata with such symbols
the file of the determinization determines it, states and empty moves included.
-/
theorem determinize_eq_of_fileText_eq :
    (∀ lines N, Description.read lines = .ok N → N.HasTokenAlphabet) ∧
    ∀ M N : NFA,
      M.HasTokenAlphabet →
      N.HasTokenAlphabet →
      M.determinize.fileText = N.determinize.fileText →
      M.determinize = N.determinize := by
  exact ⟨fun _ _ => hasTokenAlphabet_of_read, fun _ _ => determinize_eq_of_file_eq⟩

/-- An edge out of reach is not in the file, and neither is it in the determinization. -/
theorem determinize_eq_of_unreachable_edge :
    ∃ M N : NFA,
      Description.read ["2", "a", "0", "1", "0 a 1"] = .ok M ∧
      Description.read ["3", "a", "0", "1", "0 a 1", "2 a 0"] = .ok N ∧
      M ≠ N ∧
      M.determinize.fileText = N.determinize.fileText ∧
      M.determinize = N.determinize := by
  let M := build 2 ["a"] 0 [1] [⟨0, "a", 1⟩]
  let N := build 3 ["a"] 0 [1] [⟨0, "a", 1⟩, ⟨2, "a", 0⟩]
  have hM : Description.read ["2", "a", "0", "1", "0 a 1"] = .ok M := by
    decide +kernel
  have hN : Description.read ["3", "a", "0", "1", "0 a 1", "2 a 0"] = .ok N := by
    decide +kernel
  have hne : M ≠ N := by
    decide +kernel
  have htext : M.determinize.fileText = N.determinize.fileText := by
    decide +kernel
  obtain ⟨htokens, hequal⟩ := determinize_eq_of_fileText_eq
  exact ⟨M, N, hM, hN, hne, htext, hequal M N (htokens _ M hM) (htokens _ N hN) htext⟩

end NFA

end Determinization
