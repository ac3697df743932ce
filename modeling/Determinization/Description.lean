import Determinization.OrderedNFA
import Determinization.Text.Blank
import Determinization.Text.Hex
import Determinization.Text.Lines
import Determinization.Text.Utf8

/-!
# Descriptions of nondeterministic automata

**Format.** A description is a list of lines:

* line 1: the number of states;
* line 2: the symbols of the alphabet, each the first character of a token;
* line 3: the start state;
* line 4: the accepting states; the line may be missing;
* every further line: a source state, a token whose first character is the symbol, and the
  target states.  A line with fewer than two tokens is ignored; a line without target states
  has no edges, but its source still has to be an integer.

**Faults.** Reading stops at the first fault, which is reported with the number of its line:
the header lines in order, then the accepting states and the further lines, each from left to
right.

**Automata.** What a description says are the parts of an automaton, with the edges one by one in
the order of the lines.  Both kinds of automata are put together from the same parts.

**Bytes.** A file is read as UTF-8 and cut into lines.  An ill-formed byte is the first fault
of the file, wherever it stands; its line is counted in line feeds.
-/

namespace Determinization

namespace Description

/-- The places of a description where something is expected. -/
inductive Field
  | stateCount
  | alphabet
  | start
  | accepting
  | source
  | target
  deriving DecidableEq, Repr

/-- What a fault message calls the place. -/
def Field.name : Field → String
  | .stateCount => "число состояний"
  | .alphabet => "алфавит"
  | .start => "начальное состояние"
  | .accepting => "принимающее состояние"
  | .source => "исходное состояние"
  | .target => "состояние-назначение"

/-- What can be wrong with a description. -/
inductive Fault
  | missingLine (field : Field)
  | notInteger (field : Field) (token : String)
  | illFormedByte (byte : UInt8)
  deriving DecidableEq

/-- A byte as two hexadecimal digits. -/
def byteText (byte : UInt8) : String :=
  String.ofList (Text.hexText 2 byte.toNat)

def Fault.message : Fault → String
  | .missingLine field => "нет строки '" ++ field.name ++ "'"
  | .notInteger field token =>
      field.name ++ ": ожидалось целое, получено '" ++ token ++ "'"
  | .illFormedByte byte => "байт 0x" ++ byteText byte ++ " не в кодировке utf-8"

/-- A fault and the number of its line, counted from one. -/
structure FormatError where
  line : Nat
  fault : Fault
  deriving DecidableEq

def FormatError.message (e : FormatError) : String :=
  "строка " ++ Text.numeral e.line ++ ": " ++ e.fault.message

def readInteger
    (line : Nat)
    (field : Field)
    (token : List Char) :
    Except FormatError Int :=
  match Text.integer? token with
  | some n => .ok n
  | none => .error ⟨line, .notInteger field (String.ofList token)⟩

/-- A header line, without the blanks at its ends. -/
def headerLine
    (lines : List String)
    (index : Nat)
    (field : Field) :
    Except FormatError (List Char) :=
  match lines[index]? with
  | some line => .ok (Text.trim line.toList)
  | none => .error ⟨index + 1, .missingLine field⟩

/-- The integer that a header line consists of. -/
def headerInteger
    (lines : List String)
    (index : Nat)
    (field : Field) :
    Except FormatError Int := do
  let token ← headerLine lines index field
  readInteger (index + 1) field token

/-- The symbol that a token stands for: its first character. -/
def tokenSymbol (token : List Char) : Symbol :=
  String.ofList (token.take 1)

/-- The edges of one transition line. -/
def readTransitionLine
    (number : Nat)
    (line : String) :
    Except FormatError (List Edge) :=
  match Text.tokens line.toList with
  | source :: symbol :: targets => do
      let q ← readInteger number .source source
      targets.mapM fun target => do
        let p ← readInteger number .target target
        return ⟨q, tokenSymbol symbol, p⟩
  | _ => .ok []

/-- The edges of the transition lines, of which the first has the given number. -/
def readTransitionLines
    (number : Nat) :
    List String → Except FormatError (List Edge)
  | [] => .ok []
  | line :: lines => do
      let edges ← readTransitionLine number line
      let more ← readTransitionLines (number + 1) lines
      return edges ++ more

/-- The accepting states of a description; without a fourth line there are none. -/
def readAccepting (lines : List String) : Except FormatError (List Int) :=
  (Text.tokens (lines[3]?.getD "").toList).mapM (readInteger 4 .accepting)

/-- What a description says: the parts of an automaton, with the edges one by one. -/
structure Contents where
  numStates : Int
  alphabet : List Symbol
  start : Int
  accepts : List Int
  edges : List Edge
  deriving DecidableEq

namespace Contents

/-- The automaton with these parts. -/
def nfa (c : Contents) : NFA :=
  NFA.build c.numStates c.alphabet c.start c.accepts c.edges

/-- The automaton with these parts, put together in the order of the edges. -/
def orderedNFA (c : Contents) : OrderedNFA :=
  OrderedNFA.build c.numStates c.alphabet c.start c.accepts c.edges

end Contents

/-- What the lines say, or the first fault. -/
def contents (lines : List String) : Except FormatError Contents := do
  let numStates ← headerInteger lines 0 .stateCount
  let alphabet ← headerLine lines 1 .alphabet
  let start ← headerInteger lines 2 .start
  let accepts ← readAccepting lines
  let edges ← readTransitionLines 5 (lines.drop 4)
  return ⟨numStates, (Text.tokens alphabet).map tokenSymbol, start, accepts, edges⟩

def linesOf (text : List Char) : List String :=
  (Text.splitLines text).map String.ofList

/-- The line of the byte at a position, counted in line feeds. -/
def lineOfByte
    (bytes : List UInt8)
    (position : Nat) :
    Nat :=
  (bytes.take position).count 0x0A + 1

/-- What a file says, or the first fault. -/
def contentsOfBytes (bytes : List UInt8) : Except FormatError Contents :=
  let decoded := Text.Utf8.decode bytes
  match decoded.rest with
  | [] => contents (linesOf decoded.text)
  | byte :: _ =>
      .error ⟨lineOfByte bytes (bytes.length - decoded.rest.length), .illFormedByte byte⟩

/-- The automaton that the lines describe, or the first fault. -/
def read (lines : List String) : Except FormatError NFA :=
  (contents lines).map Contents.nfa

/-- The automaton that a text describes, or the first fault. -/
def readText (text : List Char) : Except FormatError NFA :=
  read (linesOf text)

/-- The automaton that a file describes, or the first fault. -/
def readBytes (bytes : List UInt8) : Except FormatError NFA :=
  (contentsOfBytes bytes).map Contents.nfa

/-- The automaton that the lines describe, put together in the order of its edges. -/
def readOrdered (lines : List String) : Except FormatError OrderedNFA :=
  (contents lines).map Contents.orderedNFA

end Description

end Determinization
