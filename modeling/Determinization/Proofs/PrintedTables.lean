import Determinization.Proofs.PrefixStability
import Determinization.Proofs.Reports
import Determinization.Proofs.TableLayout

/-!
# The tables of automata and of runs

The cells of a transition table are marked names, sets and dashes.  None of these is broken, and the
symbols of an automaton that was read are no blanks, so a transition table is regular as soon as it
has a row; that of a determinization has one, the row of its start state.

The cells of a trace are numerals, sets, and the characters that were read, all of which come from
the word.  A run always has a row, so its table is regular if the word is unbroken, whatever the
automaton is.

**Results.** `NFA.isRegular_table`, `DFA.isRegular_table` and `Run.isRegular_table`: which tables of
the program are regular.  `printedTables_rectangular`: these are printed as rectangles, as all
regular tables are.
-/

namespace Determinization

section TransitionTables

theorem isLine_markedName
    {name : String}
    (h : Text.IsLine name.toList)
    (isStart isAccepting : Bool) :
    Text.IsLine (markedName name isStart isAccepting).toList := by
  rw [toList_markedName, Text.isLine_append, Text.isLine_append]
  refine ⟨?_, ?_, h⟩
  · cases isStart <;> decide
  · cases isAccepting <;> decide

theorem isLine_targetCell
    (s : StateSet) :
    Text.IsLine (targetCell s).toList := by
  rw [targetCell]
  split
  · decide
  · exact s.isLine_braces

/-- A table of states and symbols is regular if it has rows, and if neither the symbols nor the names
of the states have line breaks. -/
theorem isRegular_transitionTable
    {alphabet : List Symbol}
    {rows : List (List String)}
    (halphabet : ∀ a ∈ alphabet, Text.IsLine a.toList)
    (hne : rows ≠ [])
    (hrows :
      ∀ row ∈ rows, ∃ (name : String) (target : Symbol → StateSet),
        Text.IsLine name.toList ∧ row = name :: alphabet.map fun a => targetCell (target a)) :
    TableText.IsRegular ⟨transitionHeaders alphabet, rows⟩ where
  headers_ne_nil := List.cons_ne_nil _ _
  rows_ne_nil := hne
  length_eq row hrow := by
    obtain ⟨name, target, -, rfl⟩ := hrows row hrow
    simp [transitionHeaders]
  unbroken_headers header hheader := by
    rcases List.mem_cons.mp hheader with rfl | ha
    · decide
    · exact (halphabet header ha).unbroken
  unbroken_cells row hrow cell hcell := by
    obtain ⟨name, target, hname, rfl⟩ := hrows row hrow
    rcases List.mem_cons.mp hcell with rfl | htarget
    · exact hname.unbroken
    · obtain ⟨a, -, rfl⟩ := List.mem_map.mp htarget
      exact (isLine_targetCell _).unbroken

theorem NFA.isRegular_table
    {N : NFA}
    (halphabet : N.HasTokenAlphabet)
    (hne : N.table.rows ≠ []) :
    N.table.IsRegular := by
  refine isRegular_transitionTable (fun a ha => (halphabet a ha).isLine) hne fun row hrow => ?_
  obtain ⟨q, -, rfl⟩ := List.mem_map.mp hrow
  exact ⟨_, N.targets q, isLine_markedName (Text.isLine_numeral q) _ _, rfl⟩

theorem DFA.isRegular_table
    {D : DFA}
    (halphabet : ∀ a ∈ D.alphabet, Text.IsToken a.toList)
    (hne : D.states ≠ []) :
    D.table.IsRegular := by
  have hrows : D.table.rows ≠ [] := by
    simpa [table] using hne
  refine isRegular_transitionTable (fun a ha => (halphabet a ha).isLine) hrows fun row hrow => ?_
  obtain ⟨s, -, rfl⟩ := List.mem_map.mp hrow
  exact ⟨_, D.step s, isLine_markedName s.isLine_braces _ _, rfl⟩

end TransitionTables

section Traces

/-- A walk reads only characters of the word. -/
theorem Walk.mem_word_of_mem_runFrom
    {W : Walk}
    {step : Nat}
    {s : StateSet}
    {word : List Char}
    {row : TraceRow}
    (hrow : row ∈ (W.runFrom step s word).trace)
    {c : Char}
    (hc : row.symbol = some c) :
    c ∈ word := by
  -- The first row reads the first character, and the others read characters of what follows it.
  induction word generalizing step s with
  | nil =>
      obtain rfl := List.mem_singleton.mp hrow
      cases hc
  | cons d word ih =>
      cases hnext : W.next s d with
      | none =>
          rw [runFrom_cons_of_none hnext] at hrow
          obtain rfl := List.mem_singleton.mp hrow
          obtain rfl := Option.some.inj hc
          exact List.mem_cons_self
      | some t =>
          rw [runFrom_cons_of_some hnext] at hrow
          rcases List.mem_cons.mp hrow with rfl | hrest
          · obtain rfl := Option.some.inj hc
            exact List.mem_cons_self
          · exact List.mem_cons_of_mem d (ih hrest)

/-- The run has rows, and the characters that they read come from the word. -/
structure Run.Reads
    (r : Run)
    (word : List Char) :
    Prop where
  trace_ne_nil : r.trace ≠ []
  mem_word : ∀ row ∈ r.trace, ∀ c, row.symbol = some c → c ∈ word

theorem Walk.reads_runFrom
    (W : Walk)
    (step : Nat)
    (s : StateSet)
    (word : List Char) :
    (W.runFrom step s word).Reads word where
  trace_ne_nil := by
    obtain ⟨row, rest, htrace, -⟩ := exists_head_runFrom (W := W) step s word
    rw [htrace]
    exact List.cons_ne_nil _ _
  mem_word _ hrow _ := mem_word_of_mem_runFrom hrow

theorem NFA.reads_run
    (N : NFA)
    (word : List Char) :
    (N.run word).Reads word where
  trace_ne_nil := List.cons_ne_nil _ _
  mem_word row hrow c hc := by
    rcases List.mem_cons.mp hrow with rfl | hrest
    · cases hc
    · rw [runFrom_eq_walk] at hrest
      exact (N.walk.reads_runFrom _ _ word).mem_word row hrest c hc

theorem DFA.reads_run
    (D : DFA)
    (word : List Char) :
    (D.run word).Reads word := by
  rw [run, runFrom_eq_walk]
  exact D.walk.reads_runFrom 0 D.start word

theorem unbroken_symbolText
    {row : TraceRow}
    (h : ∀ c, row.symbol = some c → Unbroken [c]) :
    Unbroken row.symbolText.toList := by
  obtain ⟨current, symbol, next⟩ := row
  cases symbol with
  | none => exact (by decide : Unbroken "ε".toList)
  | some c =>
      have htext : (TraceRow.mk current (some c) next).symbolText.toList = [c] := by
        simp [TraceRow.symbolText]
      rw [htext]
      exact h c rfl

theorem unbroken_nextText
    (row : TraceRow) :
    Unbroken row.nextText.toList := by
  obtain ⟨current, symbol, next⟩ := row
  cases next with
  | none => exact (by decide : Unbroken "-".toList)
  | some s => exact s.isLine_braces.unbroken

/-- The table of a run on an unbroken word is regular. -/
theorem Run.isRegular_table
    {r : Run}
    {word : List Char}
    (h : r.Reads word)
    (hword : Unbroken word) :
    r.table.IsRegular where
  headers_ne_nil := List.cons_ne_nil _ _
  rows_ne_nil := by
    simpa [table, traceTable] using h.trace_ne_nil
  length_eq row hrow := by
    obtain ⟨i, hi, rfl⟩ := List.mem_mapIdx.mp hrow
    rfl
  unbroken_headers header hheader := by
    have hheaders :
        ∀ text ∈ ["шаг", "текущее", "символ", "следующее"], Unbroken text.toList := by
      decide
    exact hheaders header hheader
  unbroken_cells cells hcells cell hcell := by
    obtain ⟨i, hi, rfl⟩ := List.mem_mapIdx.mp hcells
    rw [List.length_map] at hi
    rw [List.getElem_map] at hcell
    have hsymbol : ∀ c, r.trace[i].symbol = some c → Unbroken [c] := by
      intro c hc
      have hmem := h.mem_word _ (List.getElem_mem hi) c hc
      exact List.forall_mem_singleton.mpr (hword c hmem)
    simp only [List.mem_cons, List.not_mem_nil, or_false] at hcell
    rcases hcell with rfl | rfl | rfl | rfl
    · exact (Text.isLine_numeral _).unbroken
    · exact (StateSet.isLine_braces _).unbroken
    · exact unbroken_symbolText hsymbol
    · exact unbroken_nextText _

end Traces

/--
Regular tables are printed as rectangles from which all cells are read back.  Regular are the
transition table of an automaton that was read, if it has a row, that of its determinization, and the
table of any run of any automaton on an unbroken word.
-/
theorem printedTables_rectangular :
    (∀ t : TableText, t.IsRegular → t.IsRectangular) ∧
    (∀ lines N,
      Description.read lines = .ok N →
      (N.table.rows ≠ [] → N.table.IsRectangular) ∧ N.determinize.table.IsRectangular) ∧
    ∀ word,
      Unbroken word →
      (∀ N : NFA, (N.run word).table.IsRectangular) ∧
        ∀ D : DFA, (D.run word).table.IsRectangular := by
  refine ⟨fun t ht => ht.isRectangular, fun lines N hN => ?_, fun word hword => ?_⟩
  · have halphabet : N.HasTokenAlphabet := NFA.hasTokenAlphabet_of_read hN
    have hstates : N.determinize.states ≠ [] := List.ne_nil_of_mem (NFA.startSet_mem_states N)
    exact ⟨fun hne => (NFA.isRegular_table halphabet hne).isRectangular,
      (DFA.isRegular_table halphabet.hasTokenSymbols.alphabet hstates).isRectangular⟩
  · exact ⟨fun N => (Run.isRegular_table (N.reads_run word) hword).isRectangular,
      fun D => (Run.isRegular_table (D.reads_run word) hword).isRectangular⟩

/-- A table with bars and blanks in its texts, an automaton that has a bar as a symbol, and one
without states that ends every run early. -/
theorem printedTables_rectangular_bars :
    ∃ (t : TableText) (N : NFA) (D : DFA),
      t.headers = [" |", ""] ∧
      t.rows = [["| a |", ""], [" ", "||"]] ∧
      t.IsRegular ∧
      t.IsRectangular ∧
      Description.read ["2", "| b", "0", "1", "0 | 1"] = .ok N ∧
      N.table.rows ≠ [] ∧
      N.table.IsRectangular ∧
      N.determinize.table.IsRectangular ∧
      D.states = [] ∧
      Unbroken ['|', ' '] ∧
      (N.run ['|', ' ']).table.IsRectangular ∧
      (D.run ['|', ' ']).table.IsRectangular := by
  let t : TableText := ⟨[" |", ""], [["| a |", ""], [" ", "||"]]⟩
  let N := NFA.build 2 ["|", "b"] 0 [1] [⟨0, "|", 1⟩]
  let D : DFA := ⟨[], ["|"], OrderedMap.ofList [], ∅, []⟩
  obtain ⟨hregular, hread, hruns⟩ := printedTables_rectangular
  have ht : t.IsRegular :=
    { headers_ne_nil := List.cons_ne_nil _ _
      rows_ne_nil := List.cons_ne_nil _ _
      length_eq := by decide
      unbroken_headers := by decide
      unbroken_cells := by decide }
  have hN : Description.read ["2", "| b", "0", "1", "0 | 1"] = .ok N := by
    decide +kernel
  have hrows : N.table.rows ≠ [] := by
    decide +kernel
  have hword : Unbroken ['|', ' '] := by
    decide
  exact ⟨t, N, D, rfl, rfl, ht, hregular t ht, hN, hrows, (hread _ N hN).1 hrows, (hread _ N hN).2,
    rfl, hword, (hruns _ hword).1 N, (hruns _ hword).2 D⟩

end Determinization
