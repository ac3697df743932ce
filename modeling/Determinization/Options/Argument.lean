import Determinization.Text.Digit
import Determinization.Text.Quoted
import Determinization.Options.Settings

/-!
# Arguments of the command line

**Options.** A switch stands alone, a parameter takes a value.  Every option has a long name,
which may be cut to any beginning that fits no other, and some have a letter.  A value is
attached to a long name by `=`, and to a letter directly or by `=`; otherwise it is the next
argument.

**Classification.** Each argument before the separator `--` is classified by its text alone.
It is plain if it is empty or a lone dash, does not begin with a dash, is a negative number, or
fits no option and holds a space.  All arguments after the separator are plain.

**Faults.** A long name that fits several options is refused at once; an argument that fits no
option is kept, to be reported at the end.
-/

namespace Determinization
namespace Options

/-- An option that takes a value. -/
inductive Parameter
  | output
  | word
  | level
  deriving DecidableEq, Repr

/-- An option that stands alone. -/
inductive Switch
  | help
  | table
  deriving DecidableEq, Repr

inductive OptionName
  | parameter (p : Parameter)
  | switch (s : Switch)
  deriving DecidableEq, Repr

namespace OptionName

def all : List OptionName :=
  [.switch .help, .parameter .output, .parameter .word, .switch .table, .parameter .level]

def long : OptionName → String
  | .switch .help => "help"
  | .parameter .output => "output"
  | .parameter .word => "word"
  | .switch .table => "table"
  | .parameter .level => "log-level"

def letter? : OptionName → Option Char
  | .switch .help => some 'h'
  | .parameter .output => some 'o'
  | .parameter .word => some 'w'
  | .switch .table => none
  | .parameter .level => none

def ofLetter? (c : Char) : Option OptionName :=
  all.find? fun o => decide (o.letter? = some c)

/-- The options whose long names begin with a text. -/
def withBeginning (text : List Char) : List OptionName :=
  all.filter fun o => text.isPrefixOf o.long.toList

def longText (o : OptionName) : String :=
  "--" ++ o.long

/-- How messages call the option: its letter, if it has one, and its long name. -/
def displayName (o : OptionName) : String :=
  match o.letter? with
  | some c => "-" ++ String.singleton c ++ "/" ++ o.longText
  | none => o.longText

end OptionName

/-- What is wrong with a command line. -/
inductive UsageError
  | ambiguous (text : String) (candidates : List OptionName)
  | missingValue (p : Parameter)
  | unexpectedValue (s : Switch) (value : String)
  | unknownLevel (value : String)
  | unrecognized (arguments : List String)
  deriving DecidableEq

def UsageError.message : UsageError → String
  | .ambiguous text candidates =>
      "ambiguous option: " ++ text ++ " could match "
        ++ ", ".intercalate (candidates.map OptionName.longText)
  | .missingValue p =>
      "argument " ++ (OptionName.parameter p).displayName ++ ": expected one argument"
  | .unexpectedValue s value =>
      "argument " ++ (OptionName.switch s).displayName ++ ": ignored explicit argument "
        ++ Text.quoted value
  | .unknownLevel value =>
      "argument " ++ (OptionName.parameter .level).displayName ++ ": invalid choice: "
        ++ Text.quoted value ++ " (choose from "
        ++ ", ".intercalate (Level.all.map fun level => Text.quoted level.name) ++ ")"
  | .unrecognized arguments => "unrecognized arguments: " ++ " ".intercalate arguments

/-- Whether an option is given by its letter or by its long name. -/
inductive Form
  | letter
  | long
  deriving DecidableEq, Repr

/-- An argument that is not behind the separator. -/
inductive Argument
  | plain (text : String)
  | parameter (p : Parameter) (attached : Option String)
  | switch (s : Switch) (form : Form) (attached : Option String)
  | unknown (text : String)
  deriving DecidableEq

/-- An option as an argument, in the given form and with the text attached to it. -/
def OptionName.argument
    (o : OptionName)
    (form : Form)
    (attached : Option String) :
    Argument :=
  match o with
  | .parameter p => .parameter p attached
  | .switch s => .switch s form attached

/-- Digits only, and at least one. -/
def isDigits (text : List Char) : Bool :=
  !text.isEmpty && text.all Text.isDigit

/-- The text without a line feed at its end. -/
def dropFinalFeed (text : List Char) : List Char :=
  if text.getLast? = some '\n' then text.dropLast else text

/--
What follows the dash of a negative number: digits, or a point with digits behind it and
perhaps before it.  A line feed at the end does no harm.
-/
def isUnsignedNumber (text : List Char) : Bool :=
  let body := dropFinalFeed text
  isDigits body ||
    match body.dropWhile Text.isDigit with
    | '.' :: fraction => isDigits fraction
    | _ => false

def separator : String := "--"

/-- An argument that begins with a dash and fits no option. -/
def unfitting (text : String) : Argument :=
  if text.toList.contains ' ' then .plain text else .unknown text

/-- A text up to its first `=`, and what stands behind that. -/
def splitAtEquals (text : List Char) : List Char × Option String :=
  match text.dropWhile fun c => c != '=' with
  | [] => (text, none)
  | _ :: value => (text.takeWhile fun c => c != '=', some (String.ofList value))

/-- Classify an argument that begins with two dashes, by what follows them. -/
def classifyLong
    (text : String)
    (body : List Char) :
    Except UsageError Argument :=
  let (beginning, attached) := splitAtEquals body
  match OptionName.withBeginning beginning with
  | [] => .ok (unfitting text)
  | [o] => .ok (o.argument .long attached)
  | candidates => .error (.ambiguous text candidates)

/-- The text attached to a letter: a leading `=` does not belong to it. -/
def attachedToLetter : List Char → Option String
  | [] => none
  | '=' :: value => some (String.ofList value)
  | value => some (String.ofList value)

/-- Classify an argument that begins with one dash, by the letter and the text after it. -/
def classifyLetter
    (text : String)
    (c : Char)
    (body : List Char) :
    Argument :=
  match OptionName.ofLetter? c with
  | some o => o.argument .letter (attachedToLetter body)
  | none => if isUnsignedNumber (c :: body) then .plain text else unfitting text

/-- Classify an argument before the separator. -/
def classify (text : String) : Except UsageError Argument :=
  match text.toList with
  | '-' :: '-' :: body => classifyLong text body
  | '-' :: c :: body => .ok (classifyLetter text c body)
  | _ => .ok (.plain text)

/-- The arguments of a command line: those before the separator, and the literal ones behind it
if there is one. -/
structure ArgumentList where
  arguments : List Argument
  literals : Option (List String)
  deriving DecidableEq

/-- Classify the arguments of a command line. -/
def classifyAll : List String → Except UsageError ArgumentList
  | [] => .ok ⟨[], none⟩
  | text :: rest =>
      if text = separator then
        .ok ⟨[], some rest⟩
      else do
        let argument ← classify text
        let others ← classifyAll rest
        return ⟨argument :: others.arguments, others.literals⟩

end Options
end Determinization
