import Determinization.Description
import Determinization.Log
import Determinization.PathFault

/-!
# Outcomes

The outcome of a session is the way in which it ends, what it prints, the records of its log, and
the complaint of a session that fails.  A session that fails prints nothing.  The error channel
shows the records and behind them the complaint.

**Endings.** A session returns with an exit code, or an exception that it does not handle escapes
from it.  The latter happens to settings with a lost value and to paths that no file can have.  Such
a process exits with the code 1 and shows a trace of its calls, whose text is not modelled.
-/

namespace Determinization

/-- An exception that nothing handles: what is passed on is not of the type or of the form that is
needed. -/
inductive Escape
  /-- A lost value is no name of a level. -/
  | lostLevel
  /-- A lost value is no path. -/
  | lostOutput
  /-- A path holds the character zero. -/
  | nullCharacter
  deriving DecidableEq, Repr

/-- How a session ends. -/
inductive Ending
  | returned (exitCode : Nat)
  | escaped (e : Escape)
  deriving DecidableEq, Repr

/-- How a session ends, and what it shows. -/
structure Outcome where
  ending : Ending
  output : String
  records : List LogRecord
  complaint : String
  deriving DecidableEq

def fileComplaint
    (path : String)
    (f : SystemFault) :
    String :=
  "ошибка чтения или записи файлов: " ++ f.message path ++ "\n"

def descriptionComplaint
    (path : String)
    (e : Description.FormatError) :
    String :=
  "ошибка в описании nfa (" ++ path ++ "): " ++ e.message ++ "\n"

namespace Outcome

/-- The outcome of a session that fails. -/
def failure
    (records : List LogRecord)
    (complaint : String) :
    Outcome :=
  ⟨.returned 1, "", records, complaint⟩

/-- The outcome of a session that an exception ends. -/
def escape
    (records : List LogRecord)
    (e : Escape) :
    Outcome :=
  ⟨.escaped e, "", records, ""⟩

/-- The outcome of a session that cannot open the file under a path. -/
def unopened
    (records : List LogRecord)
    (path : String) :
    PathFault → Outcome
  | .system f => failure records (fileComplaint path f)
  | .nullCharacter => escape records .nullCharacter

/-- The code with which the process exits. -/
def exitCode (o : Outcome) : Nat :=
  match o.ending with
  | .returned code => code
  | .escaped _ => 1

/-- The outcome with only those records that a threshold lets through. -/
def restrict
    (o : Outcome)
    (threshold : Level) :
    Outcome :=
  { o with records := shownRecords threshold o.records }

/-- What the program writes to the error channel, under a time stamp and with the given names of
the loggers. -/
def errorText
    (o : Outcome)
    (stamp : String)
    (loggerName : Logger → String) :
    String :=
  String.join (o.records.map fun r => r.line stamp loggerName) ++ o.complaint

end Outcome

end Determinization
