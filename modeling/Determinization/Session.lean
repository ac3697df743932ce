import Determinization.Comparison
import Determinization.FileAccess
import Determinization.Listing
import Determinization.Options.Settings
import Determinization.Outcome

/-!
# Sessions

A session reads a description, determinizes the automaton, writes the file of the result, and
then prints its reports.

**Order.** Reading comes first, and it can fail without anything being written.  The file is
written before anything is printed.  The log has a warning about dangling states, a record for
each visit of the construction, and a record of the written file, in this order.

**Automaton.** The session works on the automaton in the order in which its description puts it
together.

**Stages.** `prepare` is what happens between reading and writing, and `finish` what happens
afterwards; `session` joins them to the access to files.
-/

namespace Determinization

section Records

variable {τ : Type} [TransitionStore τ]

/-- The record that names the dangling states and the range. -/
def danglingWarning (N : NFA τ) : LogRecord :=
  ⟨.warning, .command,
    "состояния вне диапазона 0.." ++ Text.numeral (N.numStates - 1) ++ ": " ++ N.dangling.braces⟩

/-- The warning about dangling states, if there are any. -/
def danglingRecords (N : NFA τ) : List LogRecord :=
  if N.dangling.isEmpty then [] else [danglingWarning N]

def progressRecords (N : NFA τ) : List LogRecord :=
  N.progress.map fun message => ⟨.debug, .construction, message⟩

end Records

def writtenRecord
    (D : DFA)
    (path : String) :
    LogRecord :=
  ⟨.info, .command,
    "dfa из " ++ Text.numeral D.states.length ++ " состояний записан в " ++ path⟩

/-- What a session holds between reading and writing. -/
structure Plan where
  nfa : OrderedNFA
  dfa : DFA
  deriving DecidableEq

namespace Plan

def ofNFA (N : OrderedNFA) : Plan :=
  ⟨N, N.determinize⟩

/-- The records up to the writing. -/
def records (p : Plan) : List LogRecord :=
  danglingRecords p.nfa ++ progressRecords p.nfa

/-- The bytes to be written. -/
def bytes (p : Plan) : List UInt8 :=
  Text.Utf8.encode p.dfa.fileText.toList

def tables (p : Plan) : String :=
  p.nfa.table.render "таблица переходов (исходный nfa)"
    ++ p.dfa.table.render "таблица переходов (эквивалентный dfa)"

end Plan

/-- A word of the settings; a lost value stands for the empty word. -/
def settingWord : Option String → ShownWord
  | some text => ShownWord.ofString text
  | none => ⟨[], "[]"⟩

/-- What is read, up to the writing: a plan, or the outcome of the failure. -/
def prepare
    (s : Settings)
    (content : Except PathFault (List UInt8)) :
    Except Outcome Plan :=
  match content with
  | .error f => .error (Outcome.unopened [] s.input f)
  | .ok bytes =>
      match Description.contentsOfBytes bytes with
      | .error e => .error (Outcome.failure [] (descriptionComplaint s.input e))
      | .ok c => .ok (Plan.ofNFA c.orderedNFA)

/-- The outcome after the attempt to write the file at a path. -/
def finish
    (s : Settings)
    (p : Plan)
    (path : String)
    (writing : Except PathFault Unit) :
    Outcome :=
  match writing with
  | .error f => Outcome.unopened p.records path f
  | .ok () =>
      let records := p.records ++ [writtenRecord p.dfa path]
      let words := s.words.map settingWord
      let report :=
        p.dfa.summaryText
          ++ (if s.table then p.tables else "")
          ++ comparisonText p.nfa p.dfa words
      if verdictsAgree p.nfa p.dfa words then
        ⟨.returned 0, report ++ "\n[ok] dfa записан в " ++ path ++ "\n", records, ""⟩
      else
        ⟨.returned 2, report, records, ""⟩

/-- Run a session, with all records of its log.  If the name of the file to be written got lost,
the attempt to open it raises an exception, which escapes. -/
def session
    {m : Type → Type}
    [Monad m]
    (files : FileAccess m)
    (s : Settings) :
    m Outcome := do
  let content ← files.readFile s.input
  match prepare s content with
  | .error o => return o
  | .ok p =>
      match s.output with
      | none => return Outcome.escape p.records .lostOutput
      | some path =>
          let writing ← files.writeFile path p.bytes
          return finish s p path writing

end Determinization
