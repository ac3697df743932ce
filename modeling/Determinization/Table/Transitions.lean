import Determinization.Construction
import Determinization.Table.Layout

/-!
# Transition tables

A transition table has one row for each state and one column for each symbol.  The start state
is marked by an arrow and an accepting state by a star; a dash says that there is no move.

The table of a nondeterministic automaton shows the states of its declared range, and after
them the states out of range that have a row, in ascending order.
-/

namespace Determinization

/-- The name of a state with its marks: an arrow for the start, a star for acceptance. -/
def markedName
    (name : String)
    (isStart isAccepting : Bool) :
    String :=
  (if isStart then "→" else "") ++ (if isAccepting then "*" else "") ++ name

def targetCell (s : StateSet) : String :=
  if s.isEmpty then "-" else s.braces

structure TableText where
  headers : List String
  rows : List (List String)
  deriving DecidableEq, Repr

/-- The table laid out under a title. -/
def TableText.render
    (t : TableText)
    (title : String) :
    String :=
  Table.render title t.headers t.rows

def transitionHeaders (alphabet : List Symbol) : List String :=
  "состояние" :: alphabet

namespace NFA

variable {τ : Type}

/-- The states in the declared range, in ascending order. -/
def declaredStates (N : NFA τ) : List Int :=
  (List.range N.numStates.toNat).map Int.ofNat

variable [TransitionStore τ]

/-- The states of the rows of the table, in order. -/
def tableStates (N : NFA τ) : List Int :=
  N.declaredStates ++ N.sources.filter fun q => !N.inRange q

def tableRow
    (N : NFA τ)
    (q : Int) :
    List String :=
  markedName (Text.numeral q) (decide (q = N.start)) (decide (q ∈ N.accepts))
    :: N.alphabet.map fun a => targetCell (N.targets q a)

def table (N : NFA τ) : TableText where
  headers := transitionHeaders N.alphabet
  rows := N.tableStates.map N.tableRow

end NFA

namespace DFA

def tableRow
    (D : DFA)
    (s : StateSet) :
    List String :=
  markedName s.braces (decide (s = D.start)) (D.isAccepting s)
    :: D.alphabet.map fun a => targetCell (D.step s a)

def table (D : DFA) : TableText where
  headers := transitionHeaders D.alphabet
  rows := D.states.map D.tableRow

end DFA

end Determinization
