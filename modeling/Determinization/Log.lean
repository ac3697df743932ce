/-!
# Log records

The program reports its progress in records.  Each record has a level, the name of the logger
that wrote it, and a message; a session shows the records at or above its own level.
-/

namespace Determinization

/-- The severity of a record, and the threshold of a session. -/
inductive Level
  | debug
  | info
  | warning
  | error
  deriving DecidableEq, Repr

namespace Level

/-- The levels, from the least severe on. -/
def all : List Level :=
  [.debug, .info, .warning, .error]

def name : Level → String
  | .debug => "DEBUG"
  | .info => "INFO"
  | .warning => "WARNING"
  | .error => "ERROR"

def ofName? (text : String) : Option Level :=
  all.find? fun level => decide (level.name = text)

/-- The place of a level in the order of severity. -/
def severity : Level → Nat
  | .debug => 10
  | .info => 20
  | .warning => 30
  | .error => 40

@[simp] theorem ofName?_name
    (level : Level) :
    ofName? level.name = some level := by
  cases level <;> decide

end Level

/-- The parts of the program that write records. -/
inductive Logger
  | construction
  | command
  deriving DecidableEq, Repr

/-- A record of the log. -/
structure LogRecord where
  level : Level
  logger : Logger
  message : String
  deriving DecidableEq

/-- The records that a session with the given threshold shows. -/
def shownRecords
    (threshold : Level)
    (records : List LogRecord) :
    List LogRecord :=
  records.filter fun r => decide (threshold.severity ≤ r.level.severity)

/-- The line of a record, under a time stamp and with the given names of the loggers. -/
def LogRecord.line
    (stamp : String)
    (loggerName : Logger → String)
    (r : LogRecord) :
    String :=
  stamp ++ " [" ++ r.level.name ++ "] " ++ loggerName r.logger ++ ": " ++ r.message ++ "\n"

end Determinization
