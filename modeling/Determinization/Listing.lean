import Determinization.DFA

/-!
# Listings of a deterministic automaton

Two texts list an automaton.

**The file.** `DFA.fileText` has the number of states, the alphabet, the start set and the
accepting sets on one line each, and then one line for each edge; sets are written between
brackets.

**The summary.** `DFA.summaryText` is for people: states, start, accepting states and edges
under headings, with sets between braces.

Both list the edges in the order of the automaton, and neither lists a missing move.
-/

namespace Determinization

/-- The lines as a text in which each line ends with a line feed. -/
def unlines (lines : List String) : String :=
  String.join (lines.map fun line => line ++ "\n")

theorem toList_unlines_cons
    (line : String)
    (lines : List String) :
    (unlines (line :: lines)).toList = line.toList ++ '\n' :: (unlines lines).toList := by
  simp [unlines]

def Move.fileLine (m : Move) : String :=
  m.source.brackets ++ " " ++ m.symbol ++ " " ++ m.target.brackets

def Move.summaryLine (m : Move) : String :=
  m.source.braces ++ " --" ++ m.symbol ++ "--> " ++ m.target.braces

namespace DFA

def fileLines (D : DFA) : List String :=
  Text.numeral D.states.length
    :: " ".intercalate D.alphabet
    :: D.start.brackets
    :: " ".intercalate (D.accepts.map StateSet.brackets)
    :: D.edges.map Move.fileLine

def fileText (D : DFA) : String :=
  unlines D.fileLines

def summaryLines (D : DFA) : List String :=
  ("DFA States: " ++ " ".intercalate (D.states.map StateSet.braces))
    :: ("DFA Start State: " ++ D.start.braces)
    :: ("DFA Accept States: " ++ " ".intercalate (D.accepts.map StateSet.braces))
    :: "DFA Transitions:"
    :: D.edges.map Move.summaryLine

def summaryText (D : DFA) : String :=
  unlines D.summaryLines

end DFA

end Determinization
