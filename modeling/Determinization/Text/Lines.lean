import Determinization.Text.CodeRange

/-!
# Lines

A text is cut into lines at its line breaks.  A carriage return directly followed by a line
feed is one break; every other break is one character.  A break ends the line before it, so
a text that ends with a break has no empty line after it.
-/

namespace Determinization
namespace Text

/-- The code points that end a line. -/
def lineBreakRanges : List CodeRange :=
  [ ⟨0x0A, 0x0D⟩, ⟨0x1C, 0x1E⟩, ⟨0x85, 0x85⟩, ⟨0x2028, 0x2029⟩ ]

/-- The character ends a line. -/
def isLineBreak (c : Char) : Bool :=
  inRanges lineBreakRanges c

/-- Put a character in front of the first line. -/
def prependToFirst
    (c : Char) :
    List (List Char) → List (List Char)
  | [] => [[c]]
  | line :: lines => (c :: line) :: lines

/-- The lines of a text, without their breaks. -/
def splitLines : List Char → List (List Char)
  | [] => []
  | '\r' :: '\n' :: rest => [] :: splitLines rest
  | c :: rest =>
      if isLineBreak c then
        [] :: splitLines rest
      else
        prependToFirst c (splitLines rest)

end Text
end Determinization
