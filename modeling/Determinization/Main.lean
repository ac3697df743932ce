import Std.Time.Zoned
import Std.Time.Format
import Determinization.Program

/-!
# The command

The program on the files of the machine: this module gives it access to files and shows its
outcome.
-/

namespace Determinization
namespace Command

/-- The number of a system fault; some faults are reported by their negated numbers. -/
def faultNumber (code : UInt32) : Nat :=
  if code.toNat < UInt32.size / 2 then code.toNat else UInt32.size - code.toNat

/-- The text with a capital at its beginning. -/
def capitalized (text : String) : String :=
  match text.toList with
  | [] => ""
  | c :: rest => String.ofList (c.toUpper :: rest)

def fault
    (code : UInt32)
    (details : String) :
    SystemFault :=
  let number := faultNumber code
  let known :=
    [SystemFault.notFound, SystemFault.notFolder, SystemFault.isFolder, SystemFault.tooLong]
  match known.find? fun f => decide (f.number = number) with
  | some f => f
  | none => ⟨number, capitalized details⟩

/-- The fault behind an error of the system. -/
def faultOfError : IO.Error → SystemFault
  | .alreadyExists _ code details => fault code details
  | .otherError code details => fault code details
  | .resourceBusy code details => fault code details
  | .resourceVanished code details => fault code details
  | .unsupportedOperation code details => fault code details
  | .hardwareFault code details => fault code details
  | .unsatisfiedConstraints code details => fault code details
  | .illegalOperation code details => fault code details
  | .protocolError code details => fault code details
  | .timeExpired code details => fault code details
  | .interrupted _ code details => fault code details
  | .noFileOrDirectory _ code details => fault code details
  | .invalidArgument _ code details => fault code details
  | .permissionDenied _ code details => fault code details
  | .resourceExhausted _ code details => fault code details
  | .inappropriateType _ code details => fault code details
  | .noSuchThing _ code details => fault code details
  | .unexpectedEof => ⟨5, "Unexpected end of file"⟩
  | .userError details => ⟨5, capitalized details⟩

/-- Run an action on the file under a path, with its fault if it fails. -/
def attempt
    {α : Type}
    (path : String)
    (action : IO α) :
    IO (Except PathFault α) := do
  if hasNull path then
    return .error .nullCharacter
  try
    return .ok (← action)
  catch e =>
    return .error (.system (faultOfError e))

/-- Show an outcome: its records and its complaint on the error channel, its output on the
other, and its exit code. -/
def present (o : Outcome) : IO UInt32 := do
  let now ← Std.Time.PlainDateTime.now
  let stamp := now.format "uuuu-MM-dd HH:mm:ss,SSS"
  IO.eprint (o.errorText stamp loggerName)
  IO.print o.output
  return UInt32.ofNat o.exitCode

def machineFiles : FileAccess IO where
  readFile path := do
    let content ← attempt path (IO.FS.readBinFile path)
    return content.map ByteArray.toList
  writeFile path bytes := attempt path (IO.FS.writeBinFile path bytes.toByteArray)

def run (arguments : List String) : IO UInt32 := do
  let outcome ← program machineFiles arguments
  present outcome

end Command
end Determinization

/-- The program: the exit code is that of the session. -/
def main (arguments : List String) : IO UInt32 :=
  Determinization.Command.run arguments
