import Determinization.DFA

/-!
# Running words

A run walks through a word and records one trace row for each step.  It ends early at a
character outside the alphabet; a deterministic run also ends at a missing move.  A run that
reaches the end of its word closes with a row that stays where it is, and accepts if its last
set does.  A nondeterministic run also opens with such a row, and walks on through the empty set.

Each run carries the reason for its verdict, and the verdict is read off the reason.
-/

namespace Determinization

/-- One row of a trace: where the run stands, what it reads, and where it gets.  A row without
a character stays; a row without a next set found no move. -/
structure TraceRow where
  current : StateSet
  symbol : Option Char
  next : Option StateSet
  deriving DecidableEq

/-- Why a run accepts or rejects. -/
inductive Reason
  | outsideAlphabet (step : Nat) (symbol : Char)
  | noMove (step : Nat) (state : StateSet) (symbol : Char)
  | meetsAccepting
  | missesAccepting
  | endedAccepting (state : StateSet)
  | endedRejecting (state : StateSet)
  deriving DecidableEq

/-- The verdict that a reason stands for. -/
def Reason.accepted : Reason → Bool
  | .meetsAccepting => true
  | .endedAccepting _ => true
  | .outsideAlphabet _ _ => false
  | .noMove _ _ _ => false
  | .missesAccepting => false
  | .endedRejecting _ => false

def Reason.message : Reason → String
  | .outsideAlphabet step c =>
      "на шаге " ++ Text.numeral step ++ ": символ '" ++ String.singleton c ++ "' вне алфавита"
  | .noMove step s c =>
      "на шаге " ++ Text.numeral step ++ ": переход из " ++ s.braces ++ " по '"
        ++ String.singleton c ++ "' не задан"
  | .meetsAccepting => "множество содержит принимающее"
  | .missesAccepting => "множество не пересекается с принимающими"
  | .endedAccepting s => "закончили в принимающем состоянии " ++ s.braces
  | .endedRejecting s => "закончили в непринимающем состоянии " ++ s.braces

/-- The outcome of a run: its rows, and the reason for its verdict. -/
structure Run where
  trace : List TraceRow
  reason : Reason
  deriving DecidableEq

namespace Run

def accepted (r : Run) : Bool :=
  r.reason.accepted

/-- The run with a row in front. -/
def cons
    (row : TraceRow)
    (r : Run) :
    Run :=
  ⟨row :: r.trace, r.reason⟩

end Run

namespace TraceRow

/-- The row of a run that stays in a set. -/
def stay (s : StateSet) : TraceRow :=
  ⟨s, none, some s⟩

/-- The row of a run that reads a character without getting anywhere. -/
def stuck
    (s : StateSet)
    (c : Char) :
    TraceRow :=
  ⟨s, some c, none⟩

/-- The row of a run that reads a character and gets to a set, which counts only if nonempty. -/
def read
    (s : StateSet)
    (c : Char)
    (t : StateSet) :
    TraceRow :=
  ⟨s, some c, if t.isEmpty then none else some t⟩

/-- The name of the symbol that the row reads. -/
def symbolText (row : TraceRow) : String :=
  match row.symbol with
  | none => "ε"
  | some c => String.singleton c

/-- The text of the set that the row gets to. -/
def nextText (row : TraceRow) : String :=
  match row.next with
  | none => "-"
  | some s => s.braces

end TraceRow

/-- The character is a symbol of the alphabet. -/
def inAlphabet
    (alphabet : List Symbol)
    (c : Char) :
    Bool :=
  decide (String.singleton c ∈ alphabet)

namespace NFA

variable {τ : Type} [TransitionStore τ]

/-- The rest of a run that stands in a set before the given step. -/
def runFrom
    (N : NFA τ) :
    Nat → StateSet → List Char → Run
  | _, s, [] =>
      ⟨[TraceRow.stay s], if s.meets N.accepts then .meetsAccepting else .missesAccepting⟩
  | step, s, c :: word =>
      if inAlphabet N.alphabet c then
        let t := N.move s (String.singleton c)
        (N.runFrom (step + 1) t word).cons (TraceRow.read s c t)
      else
        ⟨[TraceRow.stuck s c], .outsideAlphabet step c⟩

def run
    (N : NFA τ)
    (word : List Char) :
    Run :=
  let s := StateSet.singleton N.start
  (N.runFrom 0 s word).cons (TraceRow.stay s)

end NFA

namespace DFA

/-- The rest of a run that stands in a state before the given step. -/
def runFrom
    (D : DFA) :
    Nat → StateSet → List Char → Run
  | _, s, [] =>
      ⟨[TraceRow.stay s], if D.isAccepting s then .endedAccepting s else .endedRejecting s⟩
  | step, s, c :: word =>
      if inAlphabet D.alphabet c then
        let t := D.step s (String.singleton c)
        if t.isEmpty then
          ⟨[TraceRow.read s c t], .noMove step s c⟩
        else
          (D.runFrom (step + 1) t word).cons (TraceRow.read s c t)
      else
        ⟨[TraceRow.stuck s c], .outsideAlphabet step c⟩

def run
    (D : DFA)
    (word : List Char) :
    Run :=
  D.runFrom 0 D.start word

end DFA

end Determinization
