import Determinization.Text.Blank
import Determinization.Text.Lines

/-!
# Tables in columns

**Input.** The headers of the columns, and rows with one cell for each column.

**Layout.** A row is its cells between bars, each cell with a blank on both sides.  Below the
headers stands a row of dashes.  Cells are trimmed, headers are not.  A column is as wide as its
longest cell and at least two wider than its header, and the texts stand in its middle, the
odd blank on the right.  A table without rows has its headers on the left instead.

**Line feeds.** If a header or a cell holds a line feed or a carriage return, the table is laid
out by physical lines: a cell is cut into its lines, and a row has as many physical lines as its
tallest cell, the shorter ones filled up with blanks below.
-/

namespace Determinization
namespace Table

/-- The character starts a new physical line in a table. -/
def isFeed (c : Char) : Bool :=
  c == '\n' || c == '\r'

/-- The number of characters in the longest physical line of a text. -/
def textWidth (text : List Char) : Nat :=
  ((text.splitOnP isFeed).map List.length).foldl max 0

def blanks (n : Nat) : List Char :=
  List.replicate n ' '

/-- The text in the middle of a field, the odd blank on the right. -/
def centered
    (width : Nat)
    (text : List Char) :
    List Char :=
  let gap := width - text.length
  blanks (gap / 2) ++ text ++ blanks (gap - gap / 2)

/-- The text on the left of a field. -/
def flushLeft
    (width : Nat)
    (text : List Char) :
    List Char :=
  text ++ blanks (width - text.length)

/-- The width of a column with the given header and cells. -/
def columnWidth
    (header : List Char)
    (cells : List (List Char)) :
    Nat :=
  max ((cells.map textWidth).foldl max 0) (textWidth header + 2)

def column
    (rows : List (List (List Char)))
    (j : Nat) :
    List (List Char) :=
  rows.map fun row => row[j]?.getD []

def columnWidths
    (headers : List (List Char))
    (rows : List (List (List Char))) :
    List Nat :=
  headers.mapIdx fun j header => columnWidth header (column rows j)

/-- One physical line: the fields between bars. -/
def barLine (fields : List (List Char)) : List Char :=
  '|' :: (fields.flatMap fun field => ' ' :: field ++ [' ', '|'])

/-- The line of dashes below the headers. -/
def ruleLine (widths : List Nat) : List Char :=
  '|' :: (widths.flatMap fun width => List.replicate (width + 2) '-' ++ ['|'])

/-- The fields of one physical line of a row, blank where a cell has no such line. -/
def physicalLine
    (widths : List Nat)
    (cells : List (List (List Char)))
    (i : Nat) :
    List (List Char) :=
  List.zipWith (fun width lines => lines[i]?.getD (blanks width)) widths cells

/-- The physical lines of a row whose cells are cut into lines. -/
def physicalLines
    (widths : List Nat)
    (cells : List (List (List Char))) :
    List (List Char) :=
  let height := (cells.map List.length).foldl max 0
  (List.range height).map fun i => barLine (physicalLine widths cells i)

/-- How a text is set into its field: the width of the field and the text. -/
abbrev Alignment := Nat → List Char → List Char

/-- The lines of a header in a table laid out by physical lines. -/
def headerCell
    (align : Alignment)
    (width : Nat)
    (header : List Char) :
    List (List Char) :=
  (header.splitOnP isFeed).flatMap fun piece => Text.splitLines (align width piece)

/-- The lines of a cell in a table laid out by physical lines. -/
def bodyCell
    (width : Nat)
    (cell : List Char) :
    List (List Char) :=
  (Text.splitLines cell).map (centered width)

/-- The lines of the table below one another. -/
def layoutLines
    (headers : List (List Char))
    (rows : List (List (List Char))) :
    List (List Char) :=
  let cells := rows.map fun row => row.map Text.trim
  let widths := columnWidths headers cells
  let align : Alignment := if rows.isEmpty then flushLeft else centered
  if headers.isEmpty then
    []
  else if headers.any (·.any isFeed) || rows.any (·.any (·.any isFeed)) then
    physicalLines widths (List.zipWith (headerCell align) widths headers)
      ++ ruleLine widths
      :: cells.flatMap fun row => physicalLines widths (List.zipWith bodyCell widths row)
  else
    barLine (List.zipWith align widths headers)
      :: ruleLine widths
      :: cells.map fun row => barLine (List.zipWith centered widths row)

/-- A titled table: an empty line, the title, and the lines of the table. -/
def render
    (title : String)
    (headers : List String)
    (rows : List (List String)) :
    String :=
  let lines := layoutLines (headers.map String.toList) (rows.map fun row => row.map String.toList)
  "\n" ++ title ++ "\n" ++ "\n".intercalate (lines.map String.ofList) ++ "\n"

end Table
end Determinization
