import Determinization.Proofs.ReadingBytes
import Determinization.Proofs.Text.Lines

/-!
# Line endings

There are eleven ways to end a line, and in a file each line may end in its own way.  Only one
combination does not mean what it seems to mean: a carriage return and, behind an empty line, a
line feed are a single ending.

**Results.**
* `isLineBreak_iff`: the line breaks are the characters of the endings.
* `splitLines_written`: a text is cut into the lines of which it was written.
* `read_lineEndings`: neither the endings of the lines nor blank lines at the end matter.
-/

namespace Determinization
namespace Text

/-- The ways to end a line. -/
inductive LineEnding
  | feed
  | carriageReturn
  | returnFeed
  | verticalTab
  | formFeed
  | fileSeparator
  | groupSeparator
  | recordSeparator
  | nextLine
  | lineSeparator
  | paragraphSeparator
  deriving DecidableEq, Repr

def LineEnding.chars : LineEnding → List Char
  | .feed => ['\n']
  | .carriageReturn => ['\r']
  | .returnFeed => ['\r', '\n']
  | .verticalTab => ['\u000b']
  | .formFeed => ['\u000c']
  | .fileSeparator => ['\u001c']
  | .groupSeparator => ['\u001d']
  | .recordSeparator => ['\u001e']
  | .nextLine => ['\u0085']
  | .lineSeparator => ['\u2028']
  | .paragraphSeparator => ['\u2029']

/-- A line without breaks, and how it is ended. -/
structure EndedLine where
  line : String
  ending : LineEnding
  isLine : IsLine line.toList

def EndedLine.chars (l : EndedLine) : List Char :=
  l.line.toList ++ l.ending.chars

/-- The line ends with a carriage return, and the next one is a line feed only. -/
def EndedLine.Merges (l next : EndedLine) : Prop :=
  l.ending = .carriageReturn ∧ next.line = "" ∧ next.ending = .feed

instance : DecidableRel EndedLine.Merges :=
  fun l next =>
    inferInstanceAs
      (Decidable (l.ending = .carriageReturn ∧ next.line = "" ∧ next.ending = .feed))

/-- The text of lines that are ended, and of a last one that is not. -/
def writtenText
    (ended : List EndedLine)
    (last : String) :
    List Char :=
  ended.flatMap EndedLine.chars ++ last.toList

/-- The lines of which a text is written; a last line that is not ended is a line unless it is
empty. -/
def writtenLines
    (ended : List EndedLine)
    (last : String) :
    List String :=
  ended.map EndedLine.line ++ if last = "" then [] else [last]

section Endings

/-- The line breaks are the characters of the line endings. -/
theorem isLineBreak_iff
    {c : Char} :
    isLineBreak c = true ↔ ∃ ending : LineEnding, c ∈ ending.chars := by
  constructor
  · intro h
    have hnumber :
        c.toNat ∈ [0x0A, 0x0B, 0x0C, 0x0D, 0x1C, 0x1D, 0x1E, 0x85, 0x2028, 0x2029] := by
      simp only [isLineBreak, lineBreakRanges, inRanges_iff, List.mem_cons, List.not_mem_nil,
        or_false, exists_eq_or_imp, exists_eq_left] at h ⊢
      omega
    have hchars : ∀ n ∈ [0x0A, 0x0B, 0x0C, 0x0D, 0x1C, 0x1D, 0x1E, 0x85, 0x2028, 0x2029],
        ∃ ending : LineEnding, Char.ofNat n ∈ ending.chars := by
      simp only [List.forall_mem_cons]
      exact ⟨⟨.feed, by decide⟩, ⟨.verticalTab, by decide⟩, ⟨.formFeed, by decide⟩,
        ⟨.carriageReturn, by decide⟩, ⟨.fileSeparator, by decide⟩, ⟨.groupSeparator, by decide⟩,
        ⟨.recordSeparator, by decide⟩, ⟨.nextLine, by decide⟩, ⟨.lineSeparator, by decide⟩,
        ⟨.paragraphSeparator, by decide⟩, by simp⟩
    rw [← Char.ofNat_toNat c]
    exact hchars c.toNat hnumber
  · rintro ⟨ending, hc⟩
    have hbreaks : ending.chars.all isLineBreak = true := by
      cases ending <;> decide
    exact List.all_eq_true.mp hbreaks c hc

/-- All endings but one are a single character. -/
theorem LineEnding.eq_returnFeed_or_exists
    (ending : LineEnding) :
    ending = .returnFeed ∨ ∃ b, ending.chars = [b] ∧ (b = '\r' → ending = .carriageReturn) := by
  cases ending with
  | returnFeed => exact Or.inl rfl
  | _ => exact Or.inr ⟨_, rfl, by decide⟩

/-- Only the line feed begins with a line feed. -/
theorem LineEnding.exists_head
    (ending : LineEnding) :
    ∃ b more, ending.chars = b :: more ∧ (b = '\n' → ending = .feed) := by
  cases ending <;> exact ⟨_, _, rfl, by decide⟩

/-- An ending ends an empty line at the beginning of a text. -/
theorem splitLines_ending
    {ending : LineEnding}
    {rest : List Char}
    (h : ending = .carriageReturn → rest.head? ≠ some '\n') :
    splitLines (ending.chars ++ rest) = [] :: splitLines rest := by
  rcases ending.eq_returnFeed_or_exists with rfl | ⟨b, hchars, hreturn⟩
  · exact splitLines.eq_2 rest
  · have hb : isLineBreak b = true := isLineBreak_iff.mpr ⟨ending, by simp [hchars]⟩
    rw [hchars, List.singleton_append]
    exact splitLines_cons_of_break hb fun hpair => h (hreturn hpair)

end Endings

section Written

theorem IsLine.head?_ne_feed
    {text : List Char}
    (h : IsLine text) :
    text.head? ≠ some '\n' := by
  intro hfeed
  exact absurd (h '\n' (List.mem_of_head? hfeed)) (by decide)

/-- Unless the two lines merge, what follows a carriage return is no line feed. -/
theorem EndedLine.head?_ne_feed
    {l next : EndedLine}
    (hreturn : l.ending = .carriageReturn)
    (h : ¬ l.Merges next)
    (rest : List Char) :
    (next.chars ++ rest).head? ≠ some '\n' := by
  rw [EndedLine.chars, List.append_assoc]
  by_cases hempty : next.line = ""
  · obtain ⟨b, more, hchars, hfeed⟩ := next.ending.exists_head
    rw [hempty, hchars, String.toList_empty, List.nil_append, List.cons_append, List.head?_cons,
      ne_eq, Option.some.injEq]
    exact fun hb => h ⟨hreturn, hempty, hfeed hb⟩
  · rw [List.head?_append_of_ne_nil _ (by simpa using hempty)]
    exact next.isLine.head?_ne_feed

/-- A text is cut into the lines of which it was written. -/
theorem splitLines_written
    {ended : List EndedLine}
    {last : String}
    (hended : ended.IsChain fun l next => ¬ l.Merges next)
    (hlast : IsLine last.toList) :
    (splitLines (writtenText ended last)).map String.ofList = writtenLines ended last := by
  induction ended with
  | nil =>
      by_cases hempty : last = ""
      · subst hempty
        rfl
      · have hne : last.toList ≠ [] := by
          simpa using hempty
        simp [writtenText, writtenLines, hempty, splitLines_of_isLine hlast hne]
  | cons l ended ih =>
      have hrest : l.ending = .carriageReturn → (writtenText ended last).head? ≠ some '\n' := by
        intro hreturn
        cases ended with
        | nil => exact hlast.head?_ne_feed
        | cons next ended =>
            have hmerges := (List.isChain_cons_cons.mp hended).1
            rw [writtenText, List.flatMap_cons, List.append_assoc]
            exact EndedLine.head?_ne_feed hreturn hmerges _
      have hsplit :
          splitLines (writtenText (l :: ended) last)
            =
          l.line.toList :: splitLines (writtenText ended last) := by
        rw [writtenText, List.flatMap_cons, EndedLine.chars, List.append_assoc, List.append_assoc]
        exact splitLines_append_of_isLine l.isLine (splitLines_ending hrest)
      rw [hsplit, List.map_cons, ih hended.of_cons, String.ofList_toList]
      rfl

end Written

end Text

namespace Description

/-- The line has no characters but blanks. -/
def IsBlankLine (line : String) : Prop :=
  ∀ c ∈ line.toList, Text.isBlank c = true

/-- Blank lines at the end have no effect. -/
theorem read_append_blanks
    {lines blanks : List String}
    (hlength : 3 ≤ lines.length)
    (hblanks : ∀ blank ∈ blanks, IsBlankLine blank) :
    read (lines ++ blanks) = read lines := by
  induction blanks generalizing lines with
  | nil => rw [List.append_nil]
  | cons blank blanks ih =>
      obtain ⟨hblank, hrest⟩ := List.forall_mem_cons.mp hblanks
      have hlonger : 3 ≤ (lines ++ [blank]).length := by
        rw [List.length_append]
        omega
      rw [List.append_cons, ih hlonger hrest, read_append_blank hlength (Text.tokens_eq_nil hblank)]

/--
A file is read as the lines of which it is written, with whatever endings, and blank lines at the
end of a description change nothing.
-/
theorem read_lineEndings :
    (∀ (ended : List Text.EndedLine) (last : String),
        ended.IsChain (fun l next => ¬ l.Merges next) →
        Text.IsLine last.toList →
        readBytes (Text.Utf8.encode (Text.writtenText ended last))
          =
        read (Text.writtenLines ended last))
      ∧
    (∀ lines blanks : List String,
        3 ≤ lines.length →
        (∀ blank ∈ blanks, IsBlankLine blank) →
        read (lines ++ blanks) = read lines) := by
  constructor
  · intro ended last hended hlast
    rw [readBytes_encode, readText, linesOf, Text.splitLines_written hended hlast]
  · intro lines blanks hlength hblanks
    exact read_append_blanks hlength hblanks

/-- A file whose lines end in five ways, the last not at all, with a carriage return in front of an
empty line. -/
theorem read_lineEndings_mixed :
    readBytes (Text.Utf8.encode "2\ra b\u0085 0\r\r\n0 a 1\n1 b x".toList)
      =
    read ["2", "a b", " 0", "", "0 a 1", "1 b x"] := by
  let ended : List Text.EndedLine :=
    [⟨"2", .carriageReturn, by decide⟩, ⟨"a b", .nextLine, by decide⟩,
      ⟨" 0", .carriageReturn, by decide⟩, ⟨"", .returnFeed, by decide⟩,
      ⟨"0 a 1", .feed, by decide⟩]
  have htext : Text.writtenText ended "1 b x" = "2\ra b\u0085 0\r\r\n0 a 1\n1 b x".toList := by
    decide +kernel
  have hlines :
      Text.writtenLines ended "1 b x" = ["2", "a b", " 0", "", "0 a 1", "1 b x"] := by
    decide +kernel
  rw [← htext, ← hlines]
  exact read_lineEndings.1 ended "1 b x" (by decide +kernel) (by decide)

end Description
end Determinization
