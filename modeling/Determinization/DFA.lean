import Determinization.NFA
import Determinization.OrderedMap

/-!
# Deterministic automata over sets of states

The states of a deterministic automaton are sets of states.  States, rows and the entries of a
row stand in the order in which they were put down, which every listing of the automaton shows.
An entry with the empty set is no edge: it says that the state has no move by the symbol.

Nothing ties the parts together: an automaton made by hand may repeat a state, list one
without a row, or start outside its states.
-/

namespace Determinization

/-- The moves of one state, in the order of their symbols. -/
abbrev MoveRow := OrderedMap Symbol StateSet

structure Move where
  source : StateSet
  symbol : Symbol
  target : StateSet
  deriving DecidableEq

/-- A deterministic automaton whose states are sets. -/
structure DFA where
  states : List StateSet
  alphabet : List Symbol
  transitions : OrderedMap StateSet MoveRow
  start : StateSet
  accepts : List StateSet
  deriving DecidableEq

namespace DFA

/-- The row of a state; a state without one has the empty row. -/
def row
    (D : DFA)
    (s : StateSet) :
    MoveRow :=
  (D.transitions.get? s).getD OrderedMap.empty

/-- The set reached from a state by a symbol, empty if there is no move. -/
def step
    (D : DFA)
    (s : StateSet)
    (a : Symbol) :
    StateSet :=
  ((D.row s).get? a).getD ∅

/-- The set is one of the accepting states. -/
def isAccepting
    (D : DFA)
    (s : StateSet) :
    Bool :=
  decide (s ∈ D.accepts)

/-- The moves of a state to a nonempty set, in the order of its row. -/
def movesFrom
    (D : DFA)
    (s : StateSet) :
    List Move :=
  ((D.row s).entries.filter fun entry => !entry.2.isEmpty).map fun entry =>
    ⟨s, entry.1, entry.2⟩

/-- The moves of all states, in the order of the states. -/
def edges (D : DFA) : List Move :=
  D.states.flatMap D.movesFrom

end DFA

end Determinization
