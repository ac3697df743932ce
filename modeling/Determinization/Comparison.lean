import Determinization.Run
import Determinization.Table.Transitions

/-!
# Traces and comparison of verdicts

A trace is shown as a table of numbered steps.  A comparison runs each word on both automata,
shows both results with their traces, and says whether the verdicts agree.

**Results.** The comparison of a list of words agrees if and only if the verdicts of the two
automata agree on every word.
-/

namespace Determinization

/-- The texts of a trace row: where the run stands, what it reads, where it gets. -/
structure TraceTexts where
  current : String
  symbol : String
  next : String
  deriving DecidableEq, Repr

def TraceRow.texts (row : TraceRow) : TraceTexts :=
  ⟨row.current.braces, row.symbolText, row.nextText⟩

/-- The table of a trace, the steps numbered from zero. -/
def traceTable (trace : List TraceTexts) : TableText where
  headers := ["шаг", "текущее", "символ", "следующее"]
  rows := trace.mapIdx fun i row => [Text.numeral i, row.current, row.symbol, row.next]

def Run.table (r : Run) : TableText :=
  traceTable (r.trace.map TraceRow.texts)

def verdictText (accepted : Bool) : String :=
  if accepted then "принято" else "отклонено"

/-- The result of a run on a word, with its trace, under the name of the automaton. -/
def Run.report
    (name word : String)
    (r : Run) :
    String :=
  "\nрезультат (" ++ name ++ ", '" ++ word ++ "'): " ++ verdictText r.accepted ++ " — "
    ++ r.reason.message ++ "\n" ++ r.table.render ("трассировка (" ++ name ++ ")")

def agreementLine (agree : Bool) : String :=
  "сверка: " ++ (if agree then "вердикты совпадают ✅" else "вердикты НЕ совпадают ❌") ++ "\n"

/-- A word to compare on, and how it is shown. -/
structure ShownWord where
  word : List Char
  shown : String

/-- A text as a word that is shown as it is. -/
def ShownWord.ofString (text : String) : ShownWord :=
  ⟨text.toList, text⟩

section Automata

variable {τ : Type} [TransitionStore τ]

/-- The two automata give the same verdict on a word. -/
def sameVerdict
    (N : NFA τ)
    (D : DFA)
    (word : List Char) :
    Bool :=
  (N.run word).accepted == (D.run word).accepted

/-- The report on one word. -/
def comparisonReport
    (N : NFA τ)
    (D : DFA)
    (w : ShownWord) :
    String :=
  (N.run w.word).report "nfa" w.shown
    ++ (D.run w.word).report "dfa" w.shown
    ++ agreementLine (sameVerdict N D w.word)

/-- The verdicts agree on every word. -/
def verdictsAgree
    (N : NFA τ)
    (D : DFA)
    (words : List ShownWord) :
    Bool :=
  words.all fun w => sameVerdict N D w.word

def comparisonText
    (N : NFA τ)
    (D : DFA)
    (words : List ShownWord) :
    String :=
  String.join (words.map (comparisonReport N D))

/-- The comparison agrees if and only if the runs agree on every word. -/
theorem verdictsAgree_iff
    {N : NFA τ}
    {D : DFA}
    {words : List ShownWord} :
    verdictsAgree N D words = true
      ↔
    ∀ w ∈ words, (N.run w.word).accepted = (D.run w.word).accepted := by
  simp [verdictsAgree, sameVerdict]

end Automata

end Determinization
