import Mathlib.Tactic.Common
import Determinization.Text.Lines
import Determinization.Proofs.Text.Separated
import Determinization.Proofs.Text.Token

/-!
# Lines without breaks

A text that consists of lines without breaks, each followed by a break, is cut into these
lines.  A carriage return must not be followed by a line feed here, since the two together are
one break.  Since a line break is a blank, a token is a line.

**Results.** `splitLines_append_break` cuts off one line, and `splitLines_intercalate_feed` reads
back lines with line feeds between them, of which an empty last one is lost.
-/

namespace Determinization
namespace Text

/-- A text without line breaks. -/
def IsLine (text : List Char) : Prop :=
  ∀ c ∈ text, isLineBreak c = false

instance (text : List Char) : Decidable (IsLine text) :=
  List.decidableBAll (fun c => isLineBreak c = false) text

theorem isLine_append
    {x y : List Char} :
    IsLine (x ++ y) ↔ IsLine x ∧ IsLine y :=
  List.forall_mem_append

/-- A character that is no break belongs to the first line. -/
theorem splitLines_cons_of_not_break
    {c : Char}
    {rest : List Char}
    (hc : isLineBreak c = false) :
    splitLines (c :: rest) = prependToFirst c (splitLines rest) := by
  have hreturn : c ≠ '\r' := by
    rintro rfl
    exact absurd hc (by decide)
  rw [splitLines.eq_3 c rest (fun _ h _ => hreturn h)]
  simp [hc]

/-- A break ends an empty line at the beginning of a text. -/
theorem splitLines_cons_of_break
    {b : Char}
    {rest : List Char}
    (hb : isLineBreak b = true)
    (hpair : b = '\r' → rest.head? ≠ some '\n') :
    splitLines (b :: rest) = [] :: splitLines rest := by
  rw [splitLines.eq_3 b rest (fun more hreturn hfeed => hpair hreturn (by simp [hfeed]))]
  simp [hb]

/-- Characters that are no breaks belong to the first line of what follows them. -/
theorem splitLines_append_of_isLine
    {line rest : List Char}
    {lines : List (List Char)}
    (hline : IsLine line)
    (hrest : splitLines rest = [] :: lines) :
    splitLines (line ++ rest) = line :: lines := by
  induction line with
  | nil => exact hrest
  | cons c line ih =>
      rw [List.cons_append, splitLines_cons_of_not_break (hline c List.mem_cons_self),
        ih fun d hd => hline d (List.mem_cons_of_mem c hd)]
      rfl

/-- A line without breaks is cut off at the break after it. -/
theorem splitLines_append_break
    {line : List Char}
    {b : Char}
    {rest : List Char}
    (hline : IsLine line)
    (hb : isLineBreak b = true)
    (hpair : b = '\r' → rest.head? ≠ some '\n') :
    splitLines (line ++ b :: rest) = line :: splitLines rest :=
  splitLines_append_of_isLine hline (splitLines_cons_of_break hb hpair)

/-- A text without breaks is one line, or none if it is empty. -/
theorem splitLines_of_isLine
    {line : List Char}
    (h : IsLine line)
    (hne : line ≠ []) :
    splitLines line = [line] := by
  induction line with
  | nil => exact absurd rfl hne
  | cons c line ih =>
      rw [splitLines_cons_of_not_break (h c List.mem_cons_self)]
      by_cases hend : line = []
      · subst hend
        rfl
      · rw [ih (fun d hd => h d (List.mem_cons_of_mem c hd)) hend]
        rfl

/-- Only the last of the lines between line feeds may be more or less than one line. -/
theorem splitLines_intercalate_feed
    {lines : List (List Char)}
    {last : List Char}
    (h : ∀ line ∈ lines, IsLine line) :
    splitLines (['\n'].intercalate (lines ++ [last])) = lines ++ splitLines last := by
  induction lines with
  | nil => simp
  | cons line lines ih =>
      have hmore : lines ++ [last] ≠ [] := by
        simp
      rw [List.cons_append, List.intercalate_cons_of_ne_nil hmore, List.append_assoc,
        List.singleton_append,
        splitLines_append_break (h line List.mem_cons_self) (by decide) (by simp),
        ih fun other hother => h other (List.mem_cons_of_mem _ hother), List.cons_append]

theorem isBlank_of_isLineBreak
    {c : Char}
    (h : isLineBreak c = true) :
    isBlank c = true := by
  simp only [isLineBreak, lineBreakRanges, isBlank, blankRanges, inRanges_iff, List.mem_cons,
    List.not_mem_nil, or_false, exists_eq_or_imp, exists_eq_left] at h ⊢
  omega

/-- A character that is no blank ends no line. -/
theorem isLineBreak_eq_false_of_isBlank
    {c : Char}
    (h : isBlank c = false) :
    isLineBreak c = false := by
  rw [Bool.eq_false_iff]
  intro hbreak
  exact absurd (isBlank_of_isLineBreak hbreak) (by simp [h])

theorem IsToken.isLine
    {text : List Char}
    (h : IsToken text) :
    IsLine text :=
  fun c hc => isLineBreak_eq_false_of_isBlank (h.2 c hc)

/-- Tokens with spaces between them are the tokens of the line that they make. -/
theorem tokens_intercalate
    {texts : List String}
    (h : ∀ text ∈ texts, IsToken text.toList) :
    tokens (" ".intercalate texts).toList = texts.map String.toList := by
  rw [String.toList_intercalate]
  refine tokens_joined fun token htoken => ?_
  obtain ⟨text, htext, rfl⟩ := List.mem_map.mp htoken
  exact h text htext

theorem isLine_intercalate_space
    {texts : List String}
    (h : ∀ text ∈ texts, IsLine text.toList) :
    IsLine (" ".intercalate texts).toList := by
  intro c hc
  rw [String.toList_intercalate] at hc
  rcases mem_intercalate hc with ⟨x, hx, hmem⟩ | hspace
  · obtain ⟨text, htext, rfl⟩ := List.mem_map.mp hx
    exact h text htext c hmem
  · rw [List.mem_singleton.mp hspace]
    decide

end Text
end Determinization
