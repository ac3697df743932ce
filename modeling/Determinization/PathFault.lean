import Determinization.Text.Integer
import Determinization.Text.Quoted

/-!
# Faults of paths

A file that cannot be opened has a fault with a number and a text, both as the operating system
gives them.  The message of a fault quotes the path.

A path with the character zero does not even reach the system, for which this character ends a path.
Such a path is a wrong value, and not a fault of files.
-/

namespace Determinization

/-- Why the system does not open a file: the number and the text of the fault. -/
structure SystemFault where
  number : Nat
  text : String
  deriving DecidableEq, Repr

namespace SystemFault

/-- A name is missing. -/
def notFound : SystemFault := ⟨2, "No such file or directory"⟩

/-- The path leads through a file. -/
def notFolder : SystemFault := ⟨20, "Not a directory"⟩

/-- The path ends at a folder. -/
def isFolder : SystemFault := ⟨21, "Is a directory"⟩

/-- A name, or the whole path, is too long. -/
def tooLong : SystemFault := ⟨36, "File name too long"⟩

/-- The text of a fault at a path. -/
def message
    (f : SystemFault)
    (path : String) :
    String :=
  "[Errno " ++ Text.numeral f.number ++ "] " ++ f.text ++ ": " ++ Text.quoted path

end SystemFault

/-- The path holds the character zero. -/
def hasNull (path : String) : Bool :=
  path.toList.contains '\x00'

/-- Why a file cannot be opened. -/
inductive PathFault
  | system (fault : SystemFault)
  | nullCharacter
  deriving DecidableEq, Repr

end Determinization
