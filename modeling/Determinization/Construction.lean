import Determinization.DFA

/-!
# The subset construction

**Input.** A nondeterministic automaton, its transitions in any store.

**Algorithm.** Breadth-first discovery from the set of the start state.  A visit takes the
first set of the queue and computes its move for every symbol of the alphabet, in the order of
the alphabet; each nonempty set that was not discovered before joins the end of the queue.
The construction ends when the queue is empty.

Every discovered set consists of mentioned states, so there are no more visits than there are
sets of mentioned states; that number bounds the recursion.

**Results.** The visits, in order, are all that the construction computes: the states of the
deterministic automaton, its rows and its accepting states are read off them, and so is the
progress report.
-/

namespace Determinization

/-- One step of the construction: the set taken up, its moves, and the length of the queue
after it. -/
structure Visit where
  state : StateSet
  row : MoveRow
  waiting : Nat
  deriving DecidableEq

def Visit.message (v : Visit) : String :=
  "обработано " ++ v.state.braces ++ ", в очереди " ++ Text.numeral v.waiting

namespace NFA

/-- The sets of a list that are nonempty and not yet known, each once, in order. -/
def discoveries
    (known : List StateSet) :
    List StateSet → List StateSet
  | [] => []
  | s :: rest =>
      if s.isEmpty || decide (s ∈ known) then
        discoveries known rest
      else
        s :: discoveries (s :: known) rest

variable {τ : Type}

/-- The set in which the construction starts. -/
def startSet (N : NFA τ) : StateSet :=
  StateSet.singleton N.start

/-- The set contains an accepting state. -/
def isAccepting
    (N : NFA τ)
    (s : StateSet) :
    Bool :=
  s.meets N.accepts

variable [TransitionStore τ]

/-- The moves of a set by every symbol of the alphabet. -/
def moveRow
    (N : NFA τ)
    (s : StateSet) :
    MoveRow :=
  OrderedMap.ofList (N.alphabet.map fun a => (a, N.move s a))

/--
The visits from a given queue on.  The sets visited before are `visited`, and `fuel` bounds the
number of visits.
-/
def explore
    (N : NFA τ) :
    Nat → List StateSet → List StateSet → List Visit
  | 0, _, _ => []
  | _ + 1, _, [] => []
  | fuel + 1, visited, s :: queue =>
      let row := N.moveRow s
      let later := queue ++ discoveries (visited ++ s :: queue) row.values
      ⟨s, row, later.length⟩ :: explore N fuel (visited ++ [s]) later

/-- The visits of the construction, in order. -/
def visits (N : NFA τ) : List Visit :=
  N.explore (Nat.pow 2 N.mentioned.size) [] [N.startSet]

/-- The deterministic automaton of the reachable sets. -/
def determinize (N : NFA τ) : DFA :=
  let states := N.visits.map Visit.state
  { states := states
    alphabet := N.alphabet
    transitions := OrderedMap.ofList (N.visits.map fun v => (v.state, v.row))
    start := N.startSet
    accepts := states.filter N.isAccepting }

def progress (N : NFA τ) : List String :=
  N.visits.map Visit.message

end NFA

end Determinization
