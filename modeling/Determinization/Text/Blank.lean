import Determinization.Text.CodeRange

/-!
# Blanks and tokens

A line of a description is read as the sequence of its tokens: the maximal runs of
characters that are not blank.  A header line is read as a whole, with the blanks at both
ends removed.  The blanks are the white space of Unicode together with the four separator
controls U+001C to U+001F.

**Results.** A token is never empty and holds no blank.
-/

namespace Determinization
namespace Text

def blankRanges : List CodeRange :=
  [ ⟨0x09, 0x0D⟩, ⟨0x1C, 0x20⟩, ⟨0x85, 0x85⟩, ⟨0xA0, 0xA0⟩, ⟨0x1680, 0x1680⟩,
    ⟨0x2000, 0x200A⟩, ⟨0x2028, 0x2029⟩, ⟨0x202F, 0x202F⟩, ⟨0x205F, 0x205F⟩, ⟨0x3000, 0x3000⟩ ]

/-- The character separates tokens. -/
def isBlank (c : Char) : Bool :=
  inRanges blankRanges c

/-- The text without the blanks at its two ends. -/
def trim (text : List Char) : List Char :=
  ((text.dropWhile isBlank).reverse.dropWhile isBlank).reverse

/-- The maximal blank-free runs of the text, from left to right. -/
def tokens (text : List Char) : List (List Char) :=
  (text.splitOnP isBlank).filter fun piece => !piece.isEmpty

/-- Every character that the core library calls white space is a blank. -/
theorem isBlank_of_isWhitespace
    {c : Char}
    (h : c.isWhitespace = true) :
    isBlank c = true := by
  simp only [Char.isWhitespace, Bool.or_eq_true, decide_eq_true_eq] at h
  rcases h with ((rfl | rfl) | rfl) | rfl <;> decide

theorem ne_nil_of_mem_tokens
    {text token : List Char}
    (h : token ∈ tokens text) :
    token ≠ [] := by
  simp only [tokens, List.mem_filter, Bool.not_eq_true', List.isEmpty_eq_false_iff] at h
  exact h.2

/-- The pieces between separators hold no separator. -/
theorem not_separator_of_mem_splitOnP
    {separates : Char → Bool}
    {text piece : List Char}
    (h : piece ∈ text.splitOnP separates) :
    ∀ c ∈ piece, separates c = false := by
  induction text generalizing piece with
  | nil =>
      simp only [List.splitOnP_nil, List.mem_singleton] at h
      simp [h]
  | cons c rest ih =>
      rw [List.splitOnP_cons_eq_if_modifyHead] at h
      by_cases hc : separates c = true
      · simp only [hc, if_true, List.mem_cons] at h
        rcases h with rfl | h
        · simp
        · exact ih h
      · obtain ⟨first, others, hsplit⟩ :=
          List.exists_cons_of_ne_nil (List.splitOnP_ne_nil separates rest)
        simp only [hc, hsplit, List.modifyHead_cons, List.mem_cons, Bool.false_eq_true, if_false] at h
        rcases h with rfl | h
        · intro d hd
          rcases List.mem_cons.mp hd with rfl | hd
          · exact Bool.eq_false_iff.mpr hc
          · exact ih (hsplit ▸ List.mem_cons_self) d hd
        · exact ih (hsplit ▸ List.mem_cons_of_mem first h)

/-- A token holds no blank. -/
theorem isBlank_eq_false_of_mem_tokens
    {text token : List Char}
    (h : token ∈ tokens text) :
    ∀ c ∈ token, isBlank c = false :=
  not_separator_of_mem_splitOnP (List.mem_filter.mp h).1

end Text
end Determinization
