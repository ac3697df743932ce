import Determinization.Options.Argument

/-!
# Reading a command line

**Algorithm.** All arguments are classified first.  Then they are taken from left to right:
a parameter takes its attached value or the next plain argument, the first other plain argument
names the input, and every argument that has no use is put aside.  Faults and the wish for
help take effect where they are met; arguments put aside are a fault only at the end.

**Letters in a row.** Text attached to the letter of a switch is read as further letters.  The
only switch with a letter asks for help, so a row of letters only has to be well formed.

**The separator.** The first argument behind the separator names the input if nothing else
does.  The separator itself is dropped, except when the input was named before and is not the
argument directly in front of it; then it is put aside like the arguments behind it.
-/

namespace Determinization
namespace Options

/-- Why a command line yields no settings. -/
inductive Refusal
  | help
  | usage (e : UsageError)
  deriving DecidableEq

/-- The settings read so far. -/
structure Draft where
  input : Option String
  output : Option String
  words : List (Option String)
  table : Bool
  level : Option Level
  surplus : List String
  inputIsLast : Bool
  deriving DecidableEq

namespace Draft

/-- The draft before the first argument. -/
def initial : Draft where
  input := none
  output := Settings.default.output
  words := Settings.default.words
  table := Settings.default.table
  level := Settings.default.level
  surplus := []
  inputIsLast := false

def putAside
    (d : Draft)
    (texts : List String) :
    Draft :=
  { d with surplus := d.surplus ++ texts, inputIsLast := false }

/-- Take a plain argument that is no value: it names the input, or is put aside. -/
def takePlain
    (d : Draft)
    (text : String) :
    Draft :=
  match d.input with
  | none => { d with input := some text, inputIsLast := true }
  | some _ => d.putAside [text]

def takeSwitch
    (d : Draft) :
    Switch → Except Refusal Draft
  | .help => .error .help
  | .table => .ok { d with table := true, inputIsLast := false }

/-- The value that a text gives to a parameter: the separator is no value. -/
def parameterValue (text : String) : Option String :=
  if text = separator then none else some text

/-- The level that a value names. -/
def levelValue : Option String → Except Refusal (Option Level)
  | none => .ok none
  | some value =>
      match Level.ofName? value with
      | some level => .ok (some level)
      | none => .error (.usage (.unknownLevel value))

def takeParameter
    (d : Draft)
    (p : Parameter)
    (text : String) :
    Except Refusal Draft :=
  let value := parameterValue text
  match p with
  | .output => .ok { d with output := value, inputIsLast := false }
  | .word => .ok { d with words := d.words ++ [value], inputIsLast := false }
  | .level => do
      let level ← levelValue value
      return { d with level := level, inputIsLast := false }

end Draft

/-- A parameter without an attached value needs a plain argument behind it. -/
def checkFollowed
    (p : Parameter) :
    List Argument → Except Refusal Unit
  | .plain _ :: _ => .ok ()
  | _ => .error (.usage (.missingValue p))

/-- A row of letters behind the letter of a switch has to be well formed. -/
def checkLetters
    (rest : List Argument) :
    Switch → List Char → Except Refusal Unit
  | _, [] => .ok ()
  | s, c :: letters =>
      match OptionName.ofLetter? c with
      | none => .error (.usage (.unexpectedValue s (String.ofList (c :: letters))))
      | some (.switch next) => checkLetters rest next letters
      | some (.parameter next) =>
          if letters.isEmpty then checkFollowed next rest else .ok ()

/-- Text attached to a switch has to be a row of letters behind its letter. -/
def checkAttached
    (rest : List Argument)
    (s : Switch)
    (form : Form) :
    Option String → Except Refusal Unit
  | none => .ok ()
  | some text =>
      if form = .letter ∧ text ≠ "" then
        checkLetters rest s text.toList
      else
        .error (.usage (.unexpectedValue s text))

/-- Take the arguments before the separator. -/
def takeArguments : Draft → List Argument → Except Refusal Draft
  | d, [] => .ok d
  | d, .plain text :: rest => takeArguments (d.takePlain text) rest
  | d, .unknown text :: rest => takeArguments (d.putAside [text]) rest
  | d, .switch s form attached :: rest => do
      checkAttached rest s form attached
      let d ← d.takeSwitch s
      takeArguments d rest
  | d, .parameter p (some text) :: rest => do
      let d ← d.takeParameter p text
      takeArguments d rest
  | d, .parameter p none :: .plain text :: rest => do
      let d ← d.takeParameter p text
      takeArguments d rest
  | _, .parameter p none :: _ => .error (.usage (.missingValue p))

/-- Take the arguments behind the separator, if there is one. -/
def takeLiterals
    (d : Draft) :
    Option (List String) → Draft
  | none => d
  | some literals =>
      match d.input with
      | some _ =>
          if d.inputIsLast then
            d.putAside literals
          else
            d.putAside (separator :: literals)
      | none =>
          match literals with
          | [] => d
          | text :: others => { d with input := some text, surplus := d.surplus ++ others }

/-- The settings of a draft in which no argument was put aside. -/
def Draft.settings (d : Draft) : Except Refusal Settings :=
  if d.surplus.isEmpty then
    .ok ⟨d.input.getD Settings.defaultInput, d.output, d.words, d.table, d.level⟩
  else
    .error (.usage (.unrecognized d.surplus))

/-- The settings that a command line stands for. -/
def readCommandLine (arguments : List String) : Except Refusal Settings := do
  let list ←
    match classifyAll arguments with
    | .ok list => .ok list
    | .error e => .error (.usage e)
  let d ← takeArguments Draft.initial list.arguments
  (takeLiterals d list.literals).settings

end Options
end Determinization
