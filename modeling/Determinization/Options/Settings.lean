import Determinization.Log

/-!
# Settings of a session

What the command line decides: the file to read, the file to write, the words to compare on,
whether to print the transition tables, and the level of the log.

A value of an option can get lost: a value that is just the separator `--` is dropped, and the
option then stands without one.  Such a value is `none`.
-/

namespace Determinization

structure Settings where
  input : String
  output : Option String
  words : List (Option String)
  table : Bool
  level : Option Level
  deriving DecidableEq

namespace Settings

/-- The file that is read if no other is named. -/
def defaultInput : String := "nfa_input.txt"

/-- The file that is written if no other is named. -/
def defaultOutput : String := "dfa_output.txt"

/-- The settings of an empty command line. -/
def default : Settings where
  input := defaultInput
  output := some defaultOutput
  words := []
  table := false
  level := some .warning

end Settings

end Determinization
