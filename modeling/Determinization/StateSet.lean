import Std.Data.ExtTreeSet
import Determinization.Text.Integer

/-!
# Sets of states

States are integers.  A set of states is a finite set with extensional equality, listed in
ascending order.

**Text.** A set is written in two ways: between braces for people (`∅` if it is empty), and
between brackets in automaton files.  Both writers are given as functions on lists, so that a
list can also be shown that is not a set: it is sorted, and repetitions stay.
-/

namespace Determinization

/-- A finite set of automaton states. -/
abbrev StateSet := Std.ExtTreeSet Int

/-- Two sets test as equal if and only if they are. -/
instance : LawfulBEq StateSet :=
  inferInstance

namespace StateSet

/-- The set of the members of a list. -/
def ofList (states : List Int) : StateSet :=
  Std.ExtTreeSet.ofList states

def singleton (q : Int) : StateSet :=
  ofList [q]

/-- The two sets have a common member. -/
def meets (s t : StateSet) : Bool :=
  s.toList.any fun q => decide (q ∈ t)

@[simp] theorem mem_ofList
    {states : List Int}
    {q : Int} :
    q ∈ ofList states ↔ q ∈ states := by
  simp [ofList, Std.ExtTreeSet.mem_ofList]

/-- A singleton has its one member only. -/
@[simp] theorem mem_singleton
    {q r : Int} :
    r ∈ singleton q ↔ r = q := by
  simp [singleton]

theorem meets_iff
    {s t : StateSet} :
    s.meets t = true
      ↔
    ∃ q, q ∈ s ∧ q ∈ t := by
  simp [meets, Std.ExtTreeSet.mem_toList]

end StateSet

/-- The text of a list of states between braces, in the order given. -/
def bracesText (states : List Int) : String :=
  if states.isEmpty then
    "∅"
  else
    "\x7b" ++ ",".intercalate (states.map Text.numeral) ++ "\x7d"

/-- The text of a list of states between brackets, in the order given. -/
def bracketsText (states : List Int) : String :=
  "[" ++ ", ".intercalate (states.map Text.numeral) ++ "]"

/-- The states in ascending order, repetitions kept. -/
def ascending (states : List Int) : List Int :=
  states.mergeSort fun p q => decide (p ≤ q)

namespace StateSet

/-- The text of a set for people: `∅`, or its members between braces. -/
def braces (s : StateSet) : String :=
  bracesText s.toList

/-- The text of a set in automaton files: its members between brackets. -/
def brackets (s : StateSet) : String :=
  bracketsText s.toList

/-- The members of a set are listed in strictly ascending order. -/
theorem pairwise_lt_toList
    (s : StateSet) :
    s.toList.Pairwise (· < ·) := by
  have hordered := s.ordered_toList
  refine hordered.imp ?_
  intro p q hpq
  exact Std.compare_eq_lt.mp hpq

/-- Sorting the members of a set changes nothing. -/
@[simp] theorem ascending_toList
    (s : StateSet) :
    ascending s.toList = s.toList := by
  refine List.mergeSort_of_pairwise ?_
  refine (pairwise_lt_toList s).imp ?_
  intro p q hpq
  simpa using Int.le_of_lt hpq

end StateSet

end Determinization
