import Mathlib.Algebra.GroupWithZero.Nat
import Mathlib.Data.List.Forall2
import Mathlib.Order.Bounds.Basic
import Determinization.Listing
import Determinization.Proofs.Text.Lines
import Determinization.Table.Transitions

/-!
# The layout of a table

A table is regular if it has a header and a row, if each row has a cell for each header, and if no
header and no cell is broken into physical lines.  It is printed with one line for the headers, one
for the dashes, and one for each row.

All lines of such a table have the same length, since all texts of a column are set into fields of
the same width.  What stands in a line is found by its place alone: a field begins at the offset that
the widths of the columns before it give.  The bars are never looked for, so they may stand in cells
as well.  A field is a text with blanks around it, hence a cell is read back up to the blanks at its
ends, which the table does not show.

**Results.**
* `cutLine_barLine`: the fields of a line are cut out at their offsets.
* `isGreatest_columnWidth` and `fits_columnWidths_row`: the width of a column, and that texts fit.
* `TableText.IsRegular.isRectangular`: how regular tables are printed.
-/

namespace Determinization

/-- The text has neither of the characters that start a new physical line in a table. -/
def Unbroken (text : List Char) : Prop :=
  ∀ c ∈ text, c ≠ '\n' ∧ c ≠ '\r'

instance (text : List Char) : Decidable (Unbroken text) :=
  List.decidableBAll (fun c => c ≠ '\n' ∧ c ≠ '\r') text

section Unbroken

theorem unbroken_append
    {x y : List Char} :
    Unbroken (x ++ y) ↔ Unbroken x ∧ Unbroken y :=
  List.forall_mem_append

theorem unbroken_replicate
    {c : Char}
    (h : Unbroken [c])
    (n : Nat) :
    Unbroken (List.replicate n c) := by
  intro d hd
  rw [List.eq_of_mem_replicate hd]
  exact h c List.mem_cons_self

theorem Unbroken.trim
    {text : List Char}
    (h : Unbroken text) :
    Unbroken (Text.trim text) :=
  fun c hc => h c (Text.mem_of_mem_trim hc)

theorem Unbroken.isFeed_eq_false
    {text : List Char}
    (h : Unbroken text) :
    ∀ c ∈ text, Table.isFeed c = false := by
  intro c hc
  simpa [Table.isFeed] using h c hc

/-- A text without line breaks is unbroken, as there are more line breaks than these two. -/
theorem Text.IsLine.unbroken
    {text : List Char}
    (h : Text.IsLine text) :
    Unbroken text := by
  intro c hc
  constructor <;> rintro rfl <;> exact absurd (h _ hc) (by decide)

end Unbroken

/-- Lines with line feeds between them and one behind them all are lines that end with one each. -/
theorem intercalate_feed_append
    {lines : List String}
    (h : lines ≠ []) :
    "\n".intercalate lines ++ "\n" = unlines lines := by
  refine String.toList_injective ?_
  induction lines with
  | nil => exact absurd rfl h
  | cons line lines ih =>
      rw [toList_unlines_cons]
      by_cases hlast : lines = []
      · subst hlast
        simp [unlines]
      · have hmore : lines.map String.toList ≠ [] := by
          simpa using hlast
        have hrest := ih hlast
        rw [String.toList_append, String.toList_intercalate] at hrest ⊢
        rw [List.map_cons, List.intercalate_cons_of_ne_nil hmore, List.append_assoc, hrest]
        simp

namespace Table

/-- The length of a line whose fields have the given widths: a bar in front, and for each field a
blank on both sides and the bar behind it. -/
def lineLength (widths : List Nat) : Nat :=
  1 + (widths.map (· + 3)).sum

/-- The place in a line at which the field of a column begins. -/
def offset
    (widths : List Nat)
    (j : Nat) :
    Nat :=
  lineLength (widths.take j)

/-- The fields of a line, with the blanks on both sides, cut out at the offsets of the columns. -/
def cutLine
    (widths : List Nat)
    (line : List Char) :
    List (List Char) :=
  widths.mapIdx fun j width => (line.drop (offset widths j)).take (width + 2)

/-- The texts cut out of the line are the given ones, up to the blanks at their ends. -/
def LineTells
    (widths : List Nat)
    (line : List Char)
    (texts : List (List Char)) :
    Prop :=
  (cutLine widths line).map Text.trim = texts.map Text.trim

/-- There is one text for each column, and none of them is too long for its column. -/
def Fits
    (widths : List Nat)
    (texts : List (List Char)) :
    Prop :=
  List.Forall₂ (fun width text => text.length ≤ width) widths texts

/-- The line of texts that stand in the middle of their fields. -/
def centeredLine
    (widths : List Nat)
    (texts : List (List Char)) :
    List Char :=
  barLine (List.zipWith centered widths texts)

section Lines

variable {widths : List Nat} {texts fields : List (List Char)}

/-- The length of a line that has pieces behind its first bar, each three longer than its width. -/
theorem length_bar_flatMap
    {α : Type}
    {piece : α → List Char}
    {width : α → Nat}
    (h : ∀ item, (piece item).length = width item + 3)
    (items : List α) :
    ('|' :: items.flatMap piece).length = lineLength (items.map width) := by
  rw [List.length_cons, List.length_flatMap, Nat.add_comm, lineLength, List.map_map]
  simp only [h, Function.comp_def]

theorem length_barLine
    (fields : List (List Char)) :
    (barLine fields).length = lineLength (fields.map List.length) :=
  length_bar_flatMap (fun field => by simp) fields

theorem length_ruleLine
    (widths : List Nat) :
    (ruleLine widths).length = lineLength widths := by
  have hpiece : ∀ width, (List.replicate (width + 2) '-' ++ ['|']).length = id width + 3 := by
    simp
  rw [ruleLine, length_bar_flatMap hpiece, List.map_id]

/-- What stands in a line before a field is the line of the fields before it. -/
theorem drop_barLine
    (fields : List (List Char))
    (j : Nat) :
    (barLine fields).drop (offset (fields.map List.length) j)
      =
    (fields.drop j).flatMap fun field => ' ' :: field ++ [' ', '|'] := by
  have hbefore : (barLine (fields.take j)).length = offset (fields.map List.length) j := by
    rw [length_barLine, offset, List.map_take]
  have hline :
      barLine fields
        =
      barLine (fields.take j)
        ++ (fields.drop j).flatMap fun field => ' ' :: field ++ [' ', '|'] := by
    rw [barLine, barLine, List.cons_append, ← List.flatMap_append, List.take_append_drop]
  rw [hline, List.drop_left' hbefore]

/-- The fields of a line are cut out of it, whatever characters they have. -/
theorem cutLine_barLine
    (fields : List (List Char)) :
    cutLine (fields.map List.length) (barLine fields)
      =
    fields.map fun field => ' ' :: field ++ [' '] := by
  refine List.ext_getElem (by simp [cutLine]) fun j hj hj' => ?_
  rw [List.length_map] at hj'
  simp only [cutLine, List.getElem_mapIdx, List.getElem_map]
  -- The bar behind the field is part of its piece of the line, but not of what is cut out.
  have hfield : ' ' :: fields[j] ++ [' ', '|'] = (' ' :: fields[j] ++ [' ']) ++ ['|'] := by
    simp
  rw [drop_barLine, List.drop_eq_getElem_cons hj', List.flatMap_cons, hfield, List.append_assoc]
  exact List.take_left' (by simp)

theorem length_centered
    {width : Nat}
    {text : List Char}
    (h : text.length ≤ width) :
    (centered width text).length = width := by
  simp only [centered, blanks, List.length_append, List.length_replicate]
  omega

/-- There are only blanks in a field besides its text. -/
theorem trim_field
    (width : Nat)
    (text : List Char) :
    Text.trim (' ' :: centered width text ++ [' ']) = Text.trim text := by
  have hblanks : ∀ n, ∀ c ∈ blanks n, Text.isBlank c = true := by
    intro n c hc
    rw [List.eq_of_mem_replicate hc]
    exact Text.isBlank_space
  have hspace : ∀ c ∈ [' '], Text.isBlank c = true :=
    List.forall_mem_singleton.mpr Text.isBlank_space
  have houter := Text.trim_append_blanks hspace hspace (centered width text)
  rw [List.singleton_append] at houter
  rw [houter]
  exact Text.trim_append_blanks (hblanks _) (hblanks _) text

theorem map_length_zipWith_centered
    (h : Fits widths texts) :
    (List.zipWith centered widths texts).map List.length = widths := by
  induction h with
  | nil => rfl
  | cons hfit _ ih => rw [List.zipWith_cons_cons, List.map_cons, length_centered hfit, ih]

theorem map_trim_zipWith_centered
    (h : Fits widths texts) :
    ((List.zipWith centered widths texts).map fun field => Text.trim (' ' :: field ++ [' ']))
      =
    texts.map Text.trim := by
  induction h with
  | nil => rfl
  | cons _ _ ih => rw [List.zipWith_cons_cons, List.map_cons, List.map_cons, trim_field, ih]

theorem length_centeredLine
    (h : Fits widths texts) :
    (centeredLine widths texts).length = lineLength widths := by
  rw [centeredLine, length_barLine, map_length_zipWith_centered h]

/-- Texts that fit into their columns are told by their line. -/
theorem lineTells_centeredLine
    (h : Fits widths texts) :
    LineTells widths (centeredLine widths texts) texts := by
  have hcut := cutLine_barLine (List.zipWith centered widths texts)
  rw [map_length_zipWith_centered h] at hcut
  rw [LineTells, centeredLine, hcut, List.map_map]
  exact map_trim_zipWith_centered h

/-- Trimmed texts tell no more and no less than the texts themselves. -/
theorem lineTells_map_trim_iff
    {line : List Char} :
    LineTells widths line (texts.map Text.trim) ↔ LineTells widths line texts := by
  have htexts : (texts.map Text.trim).map Text.trim = texts.map Text.trim := by
    rw [List.map_map]
    exact List.map_congr_left fun text _ => Text.trim_trim text
  rw [LineTells, LineTells, htexts]

theorem unbroken_centered
    {width : Nat}
    {text : List Char}
    (h : Unbroken text) :
    Unbroken (centered width text) := by
  have hblanks : ∀ n, Unbroken (blanks n) := unbroken_replicate (by decide)
  rw [centered, unbroken_append, unbroken_append]
  exact ⟨⟨hblanks _, h⟩, hblanks _⟩

/-- A line is unbroken if the pieces behind its first bar are. -/
theorem unbroken_bar_flatMap
    {α : Type}
    {piece : α → List Char}
    {items : List α}
    (h : ∀ item ∈ items, Unbroken (piece item)) :
    Unbroken ('|' :: items.flatMap piece) := by
  intro c hc
  rcases List.mem_cons.mp hc with rfl | hpieces
  · decide
  · obtain ⟨item, hitem, hmem⟩ := List.mem_flatMap.mp hpieces
    exact h item hitem c hmem

theorem unbroken_barLine
    (h : ∀ field ∈ fields, Unbroken field) :
    Unbroken (barLine fields) := by
  refine unbroken_bar_flatMap fun field hfield => ?_
  have hbefore : Unbroken ([' '] ++ field) :=
    unbroken_append.mpr ⟨by decide, h field hfield⟩
  exact unbroken_append.mpr ⟨hbefore, by decide⟩

theorem unbroken_ruleLine
    (widths : List Nat) :
    Unbroken (ruleLine widths) := by
  refine unbroken_bar_flatMap fun width _ => ?_
  exact unbroken_append.mpr ⟨unbroken_replicate (by decide) _, by decide⟩

theorem unbroken_centeredLine
    (h : ∀ text ∈ texts, Unbroken text) :
    Unbroken (centeredLine widths texts) := by
  refine unbroken_barLine fun field hfield => ?_
  obtain ⟨j, hj, rfl⟩ := List.mem_iff_getElem.mp hfield
  rw [List.getElem_zipWith]
  exact unbroken_centered (h _ (List.getElem_mem _))

end Lines

section Widths

variable {headers : List (List Char)} {rows : List (List (List Char))}

theorem textWidth_eq_length
    {text : List Char}
    (h : Unbroken text) :
    textWidth text = text.length := by
  simp [textWidth, List.splitOnP_eq_singleton h.isFeed_eq_false]

/-- The width of a column is the least one that has room for its texts, two more for the header. -/
theorem isGreatest_columnWidth
    (header : List Char)
    (cells : List (List Char)) :
    IsGreatest {n | n = textWidth header + 2 ∨ ∃ cell ∈ cells, n = textWidth cell}
      (columnWidth header cells) := by
  have hmax :
      (0 :: cells.map textWidth).max? = some ((cells.map textWidth).foldl max 0) :=
    List.max?_cons'
  obtain ⟨hmem, hle⟩ := List.max?_eq_some_iff.mp hmax
  rw [List.mem_cons, List.mem_map] at hmem
  constructor
  · rcases Nat.le_total (textWidth header + 2) ((cells.map textWidth).foldl max 0) with h | h
    · rw [columnWidth, max_eq_left h]
      rcases hmem with hzero | ⟨cell, hcell, hwidth⟩
      -- A column without cells is not the wider one, since the header asks for two at least.
      · omega
      · exact Or.inr ⟨cell, hcell, hwidth.symm⟩
    · rw [columnWidth, max_eq_right h]
      exact Or.inl rfl
  · rintro n (rfl | ⟨cell, hcell, rfl⟩)
    · exact le_max_right _ _
    · exact (hle _ (List.mem_cons_of_mem 0 (List.mem_map_of_mem hcell))).trans (le_max_left _ _)

theorem fits_columnWidths_headers
    (hheaders : ∀ header ∈ headers, Unbroken header) :
    Fits (columnWidths headers rows) headers := by
  refine List.forall₂_iff_get.mpr ⟨by simp [columnWidths], fun j _ hj => ?_⟩
  have hwidth := (isGreatest_columnWidth headers[j] (column rows j)).2 (Or.inl rfl)
  rw [textWidth_eq_length (hheaders _ (List.getElem_mem hj))] at hwidth
  simp only [List.get_eq_getElem, columnWidths, List.getElem_mapIdx]
  omega

theorem fits_columnWidths_row
    {row : List (List Char)}
    (hrow : row ∈ rows)
    (hlength : row.length = headers.length)
    (hcells : ∀ cell ∈ row, Unbroken cell) :
    Fits (columnWidths headers rows) row := by
  refine List.forall₂_iff_get.mpr ⟨by simp [columnWidths, hlength], fun j _ hj => ?_⟩
  have hcolumn : row[j] ∈ column rows j :=
    List.mem_map.mpr ⟨row, hrow, by rw [List.getElem?_eq_getElem hj, Option.getD_some]⟩
  have hwidth :=
    (isGreatest_columnWidth headers[j] (column rows j)).2 (Or.inr ⟨_, hcolumn, rfl⟩)
  rw [textWidth_eq_length (hcells _ (List.getElem_mem hj))] at hwidth
  simpa only [List.get_eq_getElem, columnWidths, List.getElem_mapIdx] using hwidth

/-- Unbroken headers and cells are set into one line for each row. -/
theorem layoutLines_of_unbroken
    (hheaders_ne : headers ≠ [])
    (hrows_ne : rows ≠ [])
    (hheaders : ∀ header ∈ headers, Unbroken header)
    (hcells : ∀ row ∈ rows, ∀ cell ∈ row, Unbroken cell) :
    layoutLines headers rows
      =
    let cells := rows.map fun row => row.map Text.trim
    let widths := columnWidths headers cells
    centeredLine widths headers :: ruleLine widths :: cells.map (centeredLine widths) := by
  have hnoFeed : (headers.any (·.any isFeed) || rows.any (·.any (·.any isFeed))) = false := by
    rw [Bool.or_eq_false_iff]
    constructor
    · simp only [List.any_eq_false, Bool.not_eq_true]
      exact fun header hheader => (hheaders header hheader).isFeed_eq_false
    · simp only [List.any_eq_false, Bool.not_eq_true]
      exact fun row hrow cell hcell => (hcells row hrow cell hcell).isFeed_eq_false
  have hrowsEmpty : rows.isEmpty = false := List.isEmpty_eq_false_iff.mpr hrows_ne
  have hheadersEmpty : headers.isEmpty = false := List.isEmpty_eq_false_iff.mpr hheaders_ne
  simp only [layoutLines, hnoFeed, hrowsEmpty, hheadersEmpty, Bool.false_eq_true, if_false]
  rfl

end Widths

end Table

namespace TableText

/-- The widths that the texts of a column ask for: a header asks for two more than its length, a cell
for the length that it has when it is trimmed. -/
def demands
    (t : TableText)
    (j : Nat) :
    Set Nat :=
  {n |
    (∃ header, t.headers[j]? = some header ∧ n = header.toList.length + 2) ∨
      ∃ row ∈ t.rows, ∃ cell, row[j]? = some cell ∧ n = (Text.trim cell.toList).length}

/-- The table has headers and rows, a cell for each header in each row, and no broken text. -/
structure IsRegular (t : TableText) : Prop where
  headers_ne_nil : t.headers ≠ []
  rows_ne_nil : t.rows ≠ []
  length_eq : ∀ row ∈ t.rows, row.length = t.headers.length
  unbroken_headers : ∀ header ∈ t.headers, Unbroken header.toList
  unbroken_cells : ∀ row ∈ t.rows, ∀ cell ∈ row, Unbroken cell.toList

/--
Under any title the table is printed in these lines, all of the same length, which the widths of the
columns give.  No column is wider than its texts ask for, and each line tells its row.
-/
structure PrintedIn
    (t : TableText)
    (widths : List Nat)
    (lines : List String) :
    Prop where
  render_eq : ∀ title, t.render title = "\n" ++ title ++ "\n" ++ unlines lines
  unbroken : ∀ line ∈ lines, Unbroken line.toList
  length_lines : lines.length = t.rows.length + 2
  length_widths : widths.length = t.headers.length
  isGreatest_width : ∀ j width, widths[j]? = some width → IsGreatest (t.demands j) width
  length_line : ∀ line ∈ lines, line.toList.length = Table.lineLength widths
  headers_told :
    ∃ line, lines[0]? = some line ∧
      Table.LineTells widths line.toList (t.headers.map String.toList)
  row_told :
    ∀ i row, t.rows[i]? = some row →
      ∃ line, lines[i + 2]? = some line ∧
        Table.LineTells widths line.toList (row.map String.toList)

/-- The table is printed as a rectangle from which its cells are read back. -/
def IsRectangular (t : TableText) : Prop :=
  ∃ widths lines, t.PrintedIn widths lines

/-- The headers as lists of characters. -/
def headerChars (t : TableText) : List (List Char) :=
  t.headers.map String.toList

/-- The cells as lists of characters. -/
def cellChars (t : TableText) : List (List (List Char)) :=
  t.rows.map fun row => row.map String.toList

/-- The cells as they are printed, without the blanks at their ends. -/
def trimmedCells (t : TableText) : List (List (List Char)) :=
  t.cellChars.map fun row => row.map Text.trim

/-- The widths of the columns. -/
def widths (t : TableText) : List Nat :=
  Table.columnWidths t.headerChars t.trimmedCells

/-- The lines of a regular table: the headers, the dashes and the rows. -/
def lines (t : TableText) : List (List Char) :=
  Table.centeredLine t.widths t.headerChars
    :: Table.ruleLine t.widths
    :: t.trimmedCells.map (Table.centeredLine t.widths)

variable {t : TableText}

theorem IsRegular.unbroken_headerChars
    (h : t.IsRegular) :
    ∀ header ∈ t.headerChars, Unbroken header := by
  intro text htext
  obtain ⟨header, hheader, rfl⟩ := List.mem_map.mp htext
  exact h.unbroken_headers header hheader

theorem IsRegular.unbroken_cellChars
    (h : t.IsRegular) :
    ∀ row ∈ t.cellChars, ∀ cell ∈ row, Unbroken cell := by
  intro texts htexts text htext
  obtain ⟨row, hrow, rfl⟩ := List.mem_map.mp htexts
  obtain ⟨cell, hcell, rfl⟩ := List.mem_map.mp htext
  exact h.unbroken_cells row hrow cell hcell

theorem IsRegular.unbroken_trimmedCells
    (h : t.IsRegular) :
    ∀ row ∈ t.trimmedCells, ∀ cell ∈ row, Unbroken cell := by
  intro texts htexts text htext
  obtain ⟨row, hrow, rfl⟩ := List.mem_map.mp htexts
  obtain ⟨cell, hcell, rfl⟩ := List.mem_map.mp htext
  exact (h.unbroken_cellChars row hrow cell hcell).trim

theorem IsRegular.fits_headers
    (h : t.IsRegular) :
    Table.Fits t.widths t.headerChars :=
  Table.fits_columnWidths_headers h.unbroken_headerChars

theorem IsRegular.fits_row
    (h : t.IsRegular) :
    ∀ row ∈ t.trimmedCells, Table.Fits t.widths row := by
  intro texts htexts
  have hlength : texts.length = t.headerChars.length := by
    simp only [trimmedCells, cellChars, List.map_map, List.mem_map] at htexts
    obtain ⟨row, hrow, rfl⟩ := htexts
    simp [headerChars, h.length_eq row hrow]
  exact Table.fits_columnWidths_row htexts hlength (h.unbroken_trimmedCells texts htexts)

/-- A regular table is laid out in one line for each row. -/
theorem IsRegular.layoutLines_eq
    (h : t.IsRegular) :
    Table.layoutLines t.headerChars t.cellChars = t.lines := by
  refine Table.layoutLines_of_unbroken ?_ ?_ h.unbroken_headerChars h.unbroken_cellChars
  · simpa [headerChars] using h.headers_ne_nil
  · simpa [cellChars] using h.rows_ne_nil

/-- All lines are as long as the widths say, and none of them is broken. -/
theorem IsRegular.of_mem_lines
    (h : t.IsRegular) :
    ∀ line ∈ t.lines, line.length = Table.lineLength t.widths ∧ Unbroken line := by
  intro line hline
  simp only [lines, List.mem_cons, List.mem_map] at hline
  rcases hline with rfl | rfl | ⟨row, hrow, rfl⟩
  · exact ⟨Table.length_centeredLine h.fits_headers,
      Table.unbroken_centeredLine h.unbroken_headerChars⟩
  · exact ⟨Table.length_ruleLine _, Table.unbroken_ruleLine _⟩
  · exact ⟨Table.length_centeredLine (h.fits_row row hrow),
      Table.unbroken_centeredLine (h.unbroken_trimmedCells row hrow)⟩

/-- The cells of a column are those at its place in the rows. -/
theorem IsRegular.mem_column_iff
    (h : t.IsRegular)
    {j : Nat}
    (hj : j < t.headers.length)
    {text : List Char} :
    text ∈ Table.column t.trimmedCells j
      ↔
    ∃ row ∈ t.rows, ∃ cell, row[j]? = some cell ∧ text = Text.trim cell.toList := by
  simp only [Table.column, trimmedCells, cellChars, List.map_map, List.mem_map,
    Function.comp_apply, List.getElem?_map]
  refine exists_congr fun row => and_congr_right fun hrow => ?_
  have hlt : j < row.length := by
    rw [h.length_eq row hrow]
    exact hj
  simp [List.getElem?_eq_getElem hlt, eq_comm]

/-- A column is as wide as its texts ask for. -/
theorem IsRegular.isGreatest_width
    (h : t.IsRegular)
    {j width : Nat}
    (hwidth : t.widths[j]? = some width) :
    IsGreatest (t.demands j) width := by
  simp only [widths, Table.columnWidths, headerChars, List.getElem?_mapIdx, List.getElem?_map,
    Option.map_map, Option.map_eq_some_iff] at hwidth
  obtain ⟨header, hheader, rfl⟩ := hwidth
  obtain ⟨hj, -⟩ := List.getElem?_eq_some_iff.mp hheader
  have hheaderWidth : Table.textWidth header.toList = header.toList.length :=
    Table.textWidth_eq_length (h.unbroken_headers header (List.mem_of_getElem? hheader))
  have hcellWidth : ∀ row ∈ t.rows, ∀ cell, row[j]? = some cell →
      Table.textWidth (Text.trim cell.toList) = (Text.trim cell.toList).length := by
    intro row hrow cell hcell
    exact Table.textWidth_eq_length
      (h.unbroken_cells row hrow cell (List.mem_of_getElem? hcell)).trim
  have hdemands :
      t.demands j
        =
      {n | n = Table.textWidth header.toList + 2 ∨
        ∃ cell ∈ Table.column t.trimmedCells j, n = Table.textWidth cell} := by
    ext n
    simp only [demands, Set.mem_ofPred_eq, hheader, Option.some.injEq, exists_eq_left',
      hheaderWidth, h.mem_column_iff hj]
    refine or_congr_right ?_
    constructor
    · rintro ⟨row, hrow, cell, hcell, rfl⟩
      exact ⟨_, ⟨row, hrow, cell, hcell, rfl⟩, (hcellWidth row hrow cell hcell).symm⟩
    · rintro ⟨_, ⟨row, hrow, cell, hcell, rfl⟩, rfl⟩
      exact ⟨row, hrow, cell, hcell, hcellWidth row hrow cell hcell⟩
  rw [hdemands]
  exact Table.isGreatest_columnWidth _ _

theorem IsRegular.render_eq
    (h : t.IsRegular)
    (title : String) :
    t.render title = "\n" ++ title ++ "\n" ++ unlines (t.lines.map String.ofList) := by
  have hne : t.lines.map String.ofList ≠ [] := by
    simp [lines]
  have hlayout := h.layoutLines_eq
  rw [headerChars, cellChars] at hlayout
  rw [render, Table.render, hlayout, String.append_assoc, intercalate_feed_append hne]

/-- A regular table is printed as a rectangle. -/
theorem IsRegular.isRectangular
    (h : t.IsRegular) :
    t.IsRectangular := by
  refine ⟨t.widths, t.lines.map String.ofList, ?_⟩
  refine
    { render_eq := h.render_eq
      unbroken := fun line hline => ?_
      length_lines := by simp [lines, trimmedCells, cellChars]
      length_widths := by simp [widths, Table.columnWidths, headerChars]
      isGreatest_width := fun j width hwidth => h.isGreatest_width hwidth
      length_line := fun line hline => ?_
      headers_told := ⟨_, rfl, ?_⟩
      row_told := fun i row hrow => ?_ }
  · obtain ⟨text, htext, rfl⟩ := List.mem_map.mp hline
    rw [String.toList_ofList]
    exact (h.of_mem_lines text htext).2
  · obtain ⟨text, htext, rfl⟩ := List.mem_map.mp hline
    rw [String.toList_ofList]
    exact (h.of_mem_lines text htext).1
  · rw [String.toList_ofList]
    exact Table.lineTells_centeredLine h.fits_headers
  · have hcells : t.trimmedCells[i]? = some ((row.map String.toList).map Text.trim) := by
      rw [trimmedCells, cellChars, List.getElem?_map, List.getElem?_map, hrow]
      rfl
    refine ⟨_, by simpa [lines] using ⟨_, hcells, rfl⟩, ?_⟩
    rw [String.toList_ofList, ← Table.lineTells_map_trim_iff]
    exact Table.lineTells_centeredLine (h.fits_row _ (List.mem_of_getElem? hcells))

/-- The second column begins at offset 7 in all three lines, whatever bars stand before it. -/
example :
    render ⟨["h", ""], [["a|b ", "c"]]⟩ "T"
      =
    "\nT\n|  h  |    |\n|-----|----|\n| a|b | c  |\n" := by
  decide +kernel

end TableText

end Determinization
