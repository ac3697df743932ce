import Determinization.Options.CommandLine
import Determinization.Options.Help
import Determinization.Session
import Determinization.Volume

/-!
# The program

The program reads its command line and runs the session that it asks for, showing the records
that the level of the session lets through.  A command line that asks for help, or that is
misused, ends the program at once.

`program` is the program on any access to files, and `runProgram` the program on a volume.
-/

namespace Determinization

/-- The outcome of a command line that yields no settings. -/
def refusalOutcome : Options.Refusal → Outcome
  | .help => ⟨.returned 0, Options.helpText, [], ""⟩
  | .usage e => ⟨.returned 2, "", [], e.report⟩

/-- Run the program with settings, whether or not a command line can ask for them.  If the level got
lost, an exception escapes before the session begins. -/
def programFor
    {m : Type → Type}
    [Monad m]
    (files : FileAccess m)
    (s : Settings) :
    m Outcome :=
  match s.level with
  | none => return Outcome.escape [] .lostLevel
  | some level => do
      let outcome ← session files s
      return outcome.restrict level

/-- Run the program. -/
def program
    {m : Type → Type}
    [Monad m]
    (files : FileAccess m)
    (arguments : List String) :
    m Outcome :=
  match Options.readCommandLine arguments with
  | .error refusal => return refusalOutcome refusal
  | .ok s => programFor files s

/-- An outcome and the volume that is left. -/
structure VolumeOutcome where
  outcome : Outcome
  volume : Volume
  deriving DecidableEq

/-- Run a session on a volume, with all records of its log. -/
def runSession
    (s : Settings)
    (v : Volume) :
    VolumeOutcome :=
  let result := (session Volume.access s).run v
  ⟨result.1, result.2⟩

/-- Run the program with settings on a volume. -/
def runSettings
    (s : Settings)
    (v : Volume) :
    VolumeOutcome :=
  let result := (programFor Volume.access s).run v
  ⟨result.1, result.2⟩

/-- Run the program on a volume. -/
def runProgram
    (arguments : List String)
    (v : Volume) :
    VolumeOutcome :=
  let result := (program Volume.access arguments).run v
  ⟨result.1, result.2⟩

/-- The names of the loggers. -/
def loggerName : Logger → String
  | .construction => "nfa2dfa.construction"
  | .command => "nfa2dfa.cli"

end Determinization
