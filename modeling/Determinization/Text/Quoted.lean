import Determinization.Text.Hex
import Determinization.Text.Printable

/-!
# Quoted text

A text is quoted between two equal quotes: double ones if it holds a single quote and no double
one, and else single ones.  Inside, a backslash and the quote in use are escaped by a backslash,
tabs and line ends are written as `\t`, `\n` and `\r`, and every other character that is not
printable is written by its code point in hexadecimal.
-/

namespace Determinization
namespace Text

/-- The quote around a text. -/
def quoteFor (text : List Char) : Char :=
  if text.contains '\'' && !text.contains '"' then '"' else '\''

/-- The escape of a code point, as short as it can be. -/
def codePointEscape (code : Nat) : List Char :=
  if code ≤ 0xFF then
    '\\' :: 'x' :: hexText 2 code
  else if code ≤ 0xFFFF then
    '\\' :: 'u' :: hexText 4 code
  else
    '\\' :: 'U' :: hexText 8 code

/-- A character inside the given quotes. -/
def quotedChar
    (quote c : Char) :
    List Char :=
  if c = quote || c = '\\' then
    ['\\', c]
  else if c = '\t' then
    ['\\', 't']
  else if c = '\n' then
    ['\\', 'n']
  else if c = '\r' then
    ['\\', 'r']
  else if isPrintable c then
    [c]
  else
    codePointEscape c.toNat

/-- The text between quotes. -/
def quoted (text : String) : String :=
  let quote := quoteFor text.toList
  String.ofList (quote :: (text.toList.flatMap (quotedChar quote) ++ [quote]))

end Text
end Determinization
