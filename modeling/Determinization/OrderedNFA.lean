import Determinization.DFA

/-!
# Automata in insertion order

An automaton that is put together edge by edge keeps its rows in the order in which their states
first were sources, and the entries of a row in the order in which their symbols first occurred.
`OrderedTransitions` is the store with this order: a lookup goes by the keys, and whoever goes
through the store sees the order.

Mappings compare without regard to order.  What is left of an ordered automaton then is
`NFA.forgetOrder`.
-/

namespace Determinization

/-- The targets of all states, rows and entries in the order in which they were put down. -/
abbrev OrderedTransitions := OrderedMap Int MoveRow

namespace OrderedTransitions

/-- Add an edge.  A state without a row gets one, behind the others, and so does a symbol without
an entry. -/
def addEdge
    (transitions : OrderedTransitions)
    (edge : Edge) :
    OrderedTransitions :=
  transitions.modify edge.source fun row =>
    (row.getD OrderedMap.empty).modify edge.symbol fun targets =>
      (targets.getD ∅).insert edge.target

/-- The store to which the given edges were added one after the other. -/
def ofEdges (edges : List Edge) : OrderedTransitions :=
  edges.foldl addEdge OrderedMap.empty

/-- The targets of a state and a symbol; a state without a row has none. -/
def targets
    (transitions : OrderedTransitions)
    (q : Int)
    (a : Symbol) :
    StateSet :=
  (((transitions.get? q).getD OrderedMap.empty).get? a).getD ∅

/-- Every state of the store, row by row: the source and then the targets. -/
def mentions (transitions : OrderedTransitions) : List Int :=
  transitions.entries.flatMap fun entry =>
    entry.1 :: entry.2.values.flatMap fun targets => targets.toList

/-- The store without its order, neither that of the rows nor that of their entries. -/
def toMap (transitions : OrderedTransitions) : TransitionMap :=
  (transitions.mapValues OrderedMap.forgetOrder).forgetOrder

end OrderedTransitions

instance : TransitionStore OrderedTransitions where
  targets := OrderedTransitions.targets
  sources := OrderedMap.keys
  mentions := OrderedTransitions.mentions

/-- An automaton whose transitions stand in insertion order. -/
abbrev OrderedNFA := NFA OrderedTransitions

/-- The automaton to which the given edges were added one after the other. -/
def OrderedNFA.build
    (numStates : Int)
    (alphabet : List Symbol)
    (start : Int)
    (accepts : List Int)
    (edges : List Edge) :
    OrderedNFA :=
  NFA.assemble numStates alphabet start accepts (OrderedTransitions.ofEdges edges)

/-- The automaton as a value that has no order. -/
def NFA.forgetOrder (N : OrderedNFA) : NFA :=
  { N with transitions := N.transitions.toMap }

end Determinization
