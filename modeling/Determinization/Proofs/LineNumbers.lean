import Mathlib.Data.List.Chain
import Determinization.Proofs.LineEndings

/-!
# Two ways to number lines

A byte that is no UTF-8 is reported before the file is cut into lines.  Its line is therefore
counted in line feeds, and not in the line breaks by which a text is cut.  The two numbers differ as
soon as a line before the byte ends in neither a line feed nor a carriage return and a line feed;
the number that is reported is then the smaller one.

**Results.**
* `exists_isWrittenAs`: every text is written of lines that are ended, and of a last one.
* `length_linesOf_concat`: with one more character, it is cut into one line more than are ended.
* `count_feed_writtenText`: it has as many line feeds as lines are ended by one.
* `line_of_illFormed`: how the two numbers of the line of an ill-formed byte compare.
-/

namespace Determinization
namespace Text

/-- The text is written of these lines, each with its ending, and of a last one that is not ended;
every ending is a line break by itself. -/
structure IsWrittenAs
    (text : List Char)
    (ended : List EndedLine)
    (last : String) :
    Prop where
  writtenText_eq : writtenText ended last = text
  apart : ended.IsChain fun l next => ¬ l.Merges next
  isLine : IsLine last.toList

/-- The line is ended by a line feed, alone or behind a carriage return. -/
def EndedLine.EndsInFeed (l : EndedLine) : Prop :=
  l.ending = .feed ∨ l.ending = .returnFeed

instance : DecidablePred EndedLine.EndsInFeed :=
  fun l => inferInstanceAs (Decidable (l.ending = .feed ∨ l.ending = .returnFeed))

section Decomposition

variable {text : List Char} {ended : List EndedLine} {last : String}

/-- Each line break is the only character of an ending. -/
theorem exists_ending_of_isLineBreak
    {b : Char}
    (h : isLineBreak b = true) :
    ∃ ending : LineEnding, ending.chars = [b] := by
  obtain ⟨ending, hb⟩ := isLineBreak_iff.mp h
  rcases ending.eq_returnFeed_or_exists with rfl | ⟨c, hchars, -⟩
  · rcases List.mem_pair.mp hb with rfl | rfl
    · exact ⟨.carriageReturn, rfl⟩
    · exact ⟨.feed, rfl⟩
  · rw [hchars, List.mem_singleton] at hb
    exact ⟨ending, hb ▸ hchars⟩

/-- One more line in front, unless its carriage return and a line feed would be one break. -/
theorem IsWrittenAs.cons
    (h : IsWrittenAs text ended last)
    (l : EndedLine)
    (hpair : l.ending = .carriageReturn → text.head? ≠ some '\n') :
    IsWrittenAs (l.chars ++ text) (l :: ended) last where
  writtenText_eq := by
    rw [← h.writtenText_eq, writtenText, List.flatMap_cons, List.append_assoc]
    rfl
  apart := by
    refine h.apart.cons ?_
    rintro next hnext ⟨hreturn, hempty, hfeed⟩
    obtain ⟨more, rfl⟩ := List.head?_eq_some_iff.mp hnext
    refine hpair hreturn ?_
    rw [← h.writtenText_eq]
    simp [writtenText, EndedLine.chars, hempty, hfeed, LineEnding.chars]
  isLine := h.isLine

/-- One more character in front, which ends no line. -/
theorem IsWrittenAs.exists_cons_char
    (h : IsWrittenAs text ended last)
    {c : Char}
    (hc : isLineBreak c = false) :
    ∃ ended last, IsWrittenAs (c :: text) ended last := by
  cases ended with
  | nil =>
      refine ⟨[], String.ofList (c :: last.toList), ?_, .nil, ?_⟩
      · rw [← h.writtenText_eq]
        simp [writtenText]
      · rw [String.toList_ofList]
        exact List.forall_mem_cons.mpr ⟨hc, h.isLine⟩
  | cons l ended =>
      have hline : IsLine (String.ofList (c :: l.line.toList)).toList := by
        rw [String.toList_ofList]
        exact List.forall_mem_cons.mpr ⟨hc, l.isLine⟩
      obtain ⟨hnext, hmore⟩ := List.isChain_cons.mp h.apart
      refine ⟨⟨String.ofList (c :: l.line.toList), l.ending, hline⟩ :: ended, last, ?_, ?_,
        h.isLine⟩
      · rw [← h.writtenText_eq]
        simp [writtenText, EndedLine.chars]
      · -- whether two lines merge does not depend on what stands in the first one
        exact List.isChain_cons.mpr ⟨hnext, hmore⟩

/-- One more character at the end, which ends no line. -/
theorem IsWrittenAs.push
    (h : IsWrittenAs text ended last)
    {c : Char}
    (hc : isLineBreak c = false) :
    IsWrittenAs (text ++ [c]) ended (last.push c) where
  writtenText_eq := by
    rw [← h.writtenText_eq, writtenText, writtenText, String.toList_push, List.append_assoc]
  apart := h.apart
  isLine := by
    rw [String.toList_push]
    exact isLine_append.mpr ⟨h.isLine, by simpa [IsLine] using hc⟩

/-- Every text is written of lines that are ended, and of a last one. -/
theorem exists_isWrittenAs
    (text : List Char) :
    ∃ ended last, IsWrittenAs text ended last := by
  have hempty : IsLine "".toList := by
    decide
  fun_induction splitLines text with
  | case1 => exact ⟨[], "", rfl, .nil, hempty⟩
  | case2 rest ih =>
      obtain ⟨ended, last, h⟩ := ih
      exact ⟨_, last, h.cons ⟨"", .returnFeed, hempty⟩ (fun hreturn => by cases hreturn)⟩
  | case3 c rest hpair hbreak ih =>
      obtain ⟨ended, last, h⟩ := ih
      obtain ⟨ending, hchars⟩ := exists_ending_of_isLineBreak hbreak
      have hcons := h.cons ⟨"", ending, hempty⟩ <| by
        rintro rfl hfeed
        obtain ⟨more, hmore⟩ := List.head?_eq_some_iff.mp hfeed
        exact hpair more (List.singleton_inj.mp hchars).symm hmore
      rw [EndedLine.chars, hchars] at hcons
      exact ⟨_, last, hcons⟩
  | case4 c rest hpair hbreak ih =>
      obtain ⟨ended, last, h⟩ := ih
      exact h.exists_cons_char (Bool.eq_false_iff.mpr hbreak)

end Decomposition

section Counting

variable {ended : List EndedLine} {last : String}

theorem LineEnding.count_feed
    (ending : LineEnding) :
    ending.chars.count '\n' = if ending = .feed ∨ ending = .returnFeed then 1 else 0 := by
  cases ending <;> decide

/-- A line has a line feed if it is ended by one, and no other. -/
theorem EndedLine.count_feed
    (l : EndedLine) :
    l.chars.count '\n' = if l.EndsInFeed then 1 else 0 := by
  have hline : l.line.toList.count '\n' = 0 := by
    refine List.count_eq_zero.mpr fun hfeed => ?_
    exact absurd (l.isLine '\n' hfeed) (by decide)
  rw [EndedLine.chars, List.count_append, hline, Nat.zero_add]
  exact l.ending.count_feed

/-- A text has as many line feeds as it has lines that are ended by one. -/
theorem count_feed_writtenText
    (h : IsLine last.toList) :
    (writtenText ended last).count '\n' = ended.countP fun l => l.EndsInFeed := by
  induction ended with
  | nil =>
      refine List.count_eq_zero.mpr fun hfeed => ?_
      exact absurd (h '\n' hfeed) (by decide)
  | cons l ended ih =>
      rw [writtenText, List.flatMap_cons, List.append_assoc, List.count_append, l.count_feed]
      rw [writtenText] at ih
      rw [ih, List.countP_cons, Nat.add_comm]
      simp

end Counting

end Text

namespace Description

section Lines

variable {text : List Char} {ended : List Text.EndedLine} {last : String}

/-- The lines of which a text is written are those into which it is cut. -/
theorem linesOf_eq_writtenLines
    (h : Text.IsWrittenAs text ended last) :
    linesOf text = Text.writtenLines ended last := by
  rw [linesOf, ← h.writtenText_eq, Text.splitLines_written h.apart h.isLine]

/-- With one more character that ends no line, a text is cut into one line more than are ended. -/
theorem length_linesOf_concat
    (h : Text.IsWrittenAs text ended last)
    {c : Char}
    (hc : Text.isLineBreak c = false) :
    (linesOf (text ++ [c])).length = ended.length + 1 := by
  have hne : last.push c ≠ "" := by
    intro hempty
    simpa using congrArg String.toList hempty
  rw [linesOf_eq_writtenLines (h.push hc), Text.writtenLines, if_neg hne, List.length_append,
    List.length_map]
  rfl

end Lines

/--
The line of the byte that is reported, compared with the line on which the byte would stand if the
text before it were cut into lines: it is never larger, and it is the same if and only if every line
of this text is ended by a line feed, alone or behind a carriage return.
-/
theorem line_of_illFormed
    {bytes : List UInt8}
    (h : ¬ Text.Utf8.IsWellFormed bytes) :
    ∃ length text e,
      Text.Utf8.IsLongestWellFormed bytes length ∧
      Text.Utf8.encode text = bytes.take length ∧
      readBytes bytes = .error e ∧
      (∃ ended last, Text.IsWrittenAs text ended last) ∧
      ∀ ended last,
        Text.IsWrittenAs text ended last →
        linesOf text = Text.writtenLines ended last ∧
        ∀ c,
          Text.isLineBreak c = false →
          e.line ≤ (linesOf (text ++ [c])).length ∧
          (e.line = (linesOf (text ++ [c])).length
            ↔
          ∀ l ∈ ended, l.ending = .feed ∨ l.ending = .returnFeed) := by
  rcases readBytes_spec bytes with ⟨text, hreads⟩ | ⟨length, byte, hrefuses⟩
  · exact absurd hreads.isWellFormed h
  · obtain ⟨e, herror, hline, -, -⟩ := hrefuses.refuses
    obtain ⟨text, htext⟩ := Text.Utf8.isWellFormed_iff.mp hrefuses.isLongest.isWellFormed
    refine ⟨length, text, e, hrefuses.isLongest, htext, herror, Text.exists_isWrittenAs text, ?_⟩
    intro ended last hwritten
    refine ⟨linesOf_eq_writtenLines hwritten, fun c hc => ?_⟩
    have hfeed : String.utf8EncodeChar '\n' = [0x0A] := by
      decide
    have hfeeds : e.line = 1 + ended.countP fun l => l.EndsInFeed := by
      rw [hline, ← htext, Text.Utf8.count_encode hfeed, ← hwritten.writtenText_eq,
        Text.count_feed_writtenText hwritten.isLine]
    have hlines := length_linesOf_concat hwritten hc
    have hle := ended.countP_le_length (p := fun l => decide l.EndsInFeed)
    constructor
    · omega
    · calc e.line = (linesOf (text ++ [c])).length
          ↔ (ended.countP fun l => decide l.EndsInFeed) = ended.length := by omega
        _ ↔ ∀ l ∈ ended, l.EndsInFeed := by simp [List.countP_eq_length]

/-- Behind a line that is ended by a carriage return and a line feed, and one that is ended by a
next line character, a byte is reported on the second line and stands on the third. -/
theorem line_of_illFormed_nextLine :
    ∃ e,
      readBytes [0x31, 0x0D, 0x0A, 0xC2, 0x85, 0xFF] = .error e ∧
      e.line < (linesOf ("1\r\n\u0085".toList ++ ['x'])).length := by
  let ended : List Text.EndedLine :=
    [⟨"1", .returnFeed, by decide⟩, ⟨"", .nextLine, by decide⟩]
  have hwritten : Text.IsWrittenAs "1\r\n\u0085".toList ended "" :=
    ⟨by decide +kernel, by decide +kernel, by decide⟩
  have hbad : ¬ Text.Utf8.IsWellFormed [0x31, 0x0D, 0x0A, 0xC2, 0x85, 0xFF] := by
    decide +kernel
  obtain ⟨length, text, e, hlongest, htext, herror, -, hcompare⟩ := line_of_illFormed hbad
  have hlength : length = 5 :=
    (hlongest.unique (Text.Utf8.isLongestWellFormed_decode _)).trans (by decide +kernel)
  subst hlength
  have hsame : text = "1\r\n\u0085".toList :=
    Text.Utf8.encode_injective (htext.trans (by decide +kernel))
  subst hsame
  obtain ⟨hle, hiff⟩ := (hcompare ended "" hwritten).2 'x' (by decide)
  refine ⟨e, herror, lt_of_le_of_ne hle fun heq => ?_⟩
  exact absurd (hiff.mp heq) (by decide)

end Description
end Determinization
