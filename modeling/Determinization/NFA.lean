import Std.Data.ExtTreeMap
import Determinization.StateSet

/-!
# Nondeterministic automata

An automaton has integers as states and texts as symbols.  The declared number of states is a
figure of its own: the automaton may mention states outside `0 .. numStates - 1`, which are
then called dangling.

**Transitions.** A computation looks up the targets of a state and a symbol, or it goes through
all entries; `TransitionStore` is this interface, and everything that is computed from an automaton
is computed through it.  `TransitionMap` is the extensional store: a map from states to rows and
from symbols to sets of states, where two stores with the same rows are equal.  A row or a target
set may be empty, which no store built from edges has.  The store that lists its rows in the order
in which they were first written is the one of `OrderedNFA`.

**Results.** `mem_move_iff` says what a move reaches, and `mem_dangling_iff` which states dangle.
-/

namespace Determinization

/-- A symbol of an alphabet; a word has symbols of one character. -/
abbrev Symbol := String

/-- The targets of one state, by symbol. -/
abbrev TargetRow := Std.ExtTreeMap Symbol StateSet

/-- The targets of all states. -/
abbrev TransitionMap := Std.ExtTreeMap Int TargetRow

/-- One transition: from a state, by a symbol, to a state. -/
structure Edge where
  source : Int
  symbol : Symbol
  target : Int
  deriving DecidableEq, Repr

/-- A way to hold the transitions of an automaton. -/
class TransitionStore (τ : Type) where
  /-- The targets of a state and a symbol. -/
  targets : τ → Int → Symbol → StateSet
  /-- The states with a row, in the order of the store. -/
  sources : τ → List Int
  /-- The states with a row and the targets, in the order of the store. -/
  mentions : τ → List Int

namespace TransitionMap

def addEdge
    (transitions : TransitionMap)
    (edge : Edge) :
    TransitionMap :=
  transitions.alter edge.source fun row =>
    some ((row.getD ∅).alter edge.symbol fun targets =>
      some ((targets.getD ∅).insert edge.target))

/-- The transition map that holds the given edges. -/
def ofEdges (edges : List Edge) : TransitionMap :=
  edges.foldl addEdge ∅

/-- The targets of a state and a symbol in a transition map. -/
def targets
    (transitions : TransitionMap)
    (q : Int)
    (a : Symbol) :
    StateSet :=
  ((transitions[q]?.getD ∅)[a]?).getD ∅

/-- Every state that a row mentions as a target. -/
def rowTargets (row : TargetRow) : List Int :=
  row.toList.flatMap fun entry => entry.2.toList

/-- Every state that the map mentions, as a source or as a target. -/
def mentions (transitions : TransitionMap) : List Int :=
  transitions.toList.flatMap fun entry => entry.1 :: rowTargets entry.2

end TransitionMap

instance : TransitionStore TransitionMap where
  targets := TransitionMap.targets
  sources := Std.ExtTreeMap.keys
  mentions := TransitionMap.mentions

/-- A nondeterministic automaton without empty moves. -/
structure NFA (τ : Type := TransitionMap) where
  numStates : Int
  alphabet : List Symbol
  transitions : τ
  start : Int
  accepts : StateSet
  deriving DecidableEq

namespace NFA

section AnyStore

variable {τ : Type}

/-- The automaton with the given transitions.  A repeated symbol of the alphabet keeps its first
place only. -/
def assemble
    (numStates : Int)
    (alphabet : List Symbol)
    (start : Int)
    (accepts : List Int)
    (transitions : τ) :
    NFA τ where
  numStates := numStates
  alphabet := alphabet.eraseDups
  transitions := transitions
  start := start
  accepts := StateSet.ofList accepts

def inRange (N : NFA τ) (q : Int) : Bool :=
  decide (0 ≤ q) && decide (q < N.numStates)

variable [TransitionStore τ]

/-- The states that one state reaches by a symbol. -/
def targets
    (N : NFA τ)
    (q : Int)
    (a : Symbol) :
    StateSet :=
  TransitionStore.targets N.transitions q a

/-- The states that some state of a set reaches by a symbol. -/
def move
    (N : NFA τ)
    (s : StateSet)
    (a : Symbol) :
    StateSet :=
  StateSet.ofList (s.toList.flatMap fun q => (N.targets q a).toList)

/-- Every state that the automaton mentions: start, accepting, source or target. -/
def mentioned (N : NFA τ) : StateSet :=
  StateSet.ofList (N.start :: (N.accepts.toList ++ TransitionStore.mentions N.transitions))

/-- The mentioned states outside the declared range. -/
def dangling (N : NFA τ) : StateSet :=
  StateSet.ofList (N.mentioned.toList.filter fun q => !N.inRange q)

/-- The states with a row, sorted: in ascending order. -/
def sources (N : NFA τ) : List Int :=
  ascending (TransitionStore.sources N.transitions)

variable {N : NFA τ}

/-- A move reaches the targets of the members of the set. -/
theorem mem_move_iff
    {s : StateSet}
    {a : Symbol}
    {p : Int} :
    p ∈ N.move s a
      ↔
    ∃ q, q ∈ s ∧ p ∈ N.targets q a := by
  simp [move, Std.ExtTreeSet.mem_toList]

/-- A state dangles if it is mentioned and out of range. -/
theorem mem_dangling_iff
    {q : Int} :
    q ∈ N.dangling
      ↔
    q ∈ N.mentioned ∧ ¬ (0 ≤ q ∧ q < N.numStates) := by
  simp only [dangling, inRange, StateSet.mem_ofList, List.mem_filter,
    Std.ExtTreeSet.mem_toList, Bool.not_eq_true', Bool.and_eq_false_iff, decide_eq_false_iff_not]
  refine and_congr_right fun _ => ?_
  omega

end AnyStore

/--
The automaton with the given edges.  Edges of one state and symbol are merged into one target
set, and a repeated symbol of the alphabet keeps its first place only.
-/
def build
    (numStates : Int)
    (alphabet : List Symbol)
    (start : Int)
    (accepts : List Int)
    (edges : List Edge) :
    NFA :=
  assemble numStates alphabet start accepts (TransitionMap.ofEdges edges)

/-- In a transition map, the targets are looked up by the state and then by the symbol. -/
theorem targets_eq
    (N : NFA)
    (q : Int)
    (a : Symbol) :
    N.targets q a = ((N.transitions[q]?.getD ∅)[a]?).getD ∅ :=
  rfl

end NFA

end Determinization
