import Mathlib.Data.List.DropRight
import Determinization.Text.Blank

/-!
# Tokens of a line

The tokens of a line fall apart at its blanks, so blanks at either end of the line, which a
header line loses, make no difference.

**Results.** `tokens_append_blank` splits the tokens at a blank, `tokens_trim` says that trimming
keeps them, `isToken_of_mem_tokens` what every token is, and `tokens_joined` that any tokens
are the tokens of a line.  `exists_eq_append_trim_append` says what trimming takes away, and
`trim_append_blanks` that it takes away all blanks that are put around a text.
-/

namespace Determinization
namespace Text

/-- A nonempty text without blanks. -/
def IsToken (text : List Char) : Prop :=
  text ≠ [] ∧ ∀ c ∈ text, isBlank c = false

theorem isBlank_space :
    isBlank ' ' = true := by
  decide

theorem IsToken.space_not_mem
    {text : List Char}
    (h : IsToken text) :
    ' ' ∉ text := by
  intro hspace
  exact absurd (h.2 ' ' hspace) (by simp [isBlank_space])

theorem isToken_of_mem_tokens
    {text token : List Char}
    (h : token ∈ tokens text) :
    IsToken token :=
  ⟨ne_nil_of_mem_tokens h, isBlank_eq_false_of_mem_tokens h⟩

/-- The tokens of a line are those before and those after any blank. -/
theorem tokens_append_blank
    {c : Char}
    (hc : isBlank c = true)
    (before after : List Char) :
    tokens (before ++ c :: after) = tokens before ++ tokens after := by
  rw [tokens, List.splitOnP_append_cons before after hc, List.filter_append]
  rfl

/-- Blanks at the beginning of a line do not matter. -/
theorem tokens_blanks_append
    {blanks : List Char}
    (h : ∀ c ∈ blanks, isBlank c = true)
    (text : List Char) :
    tokens (blanks ++ text) = tokens text := by
  induction blanks with
  | nil => rfl
  | cons c blanks ih =>
      obtain ⟨hc, hrest⟩ := List.forall_mem_cons.mp h
      have hsplit := tokens_append_blank hc [] (blanks ++ text)
      rw [ih hrest] at hsplit
      exact hsplit

/-- A line of blanks has no tokens. -/
theorem tokens_eq_nil
    {text : List Char}
    (h : ∀ c ∈ text, isBlank c = true) :
    tokens text = [] := by
  have hblanks := tokens_blanks_append h []
  rw [List.append_nil] at hblanks
  exact hblanks

/-- Blanks around a text make no difference to its tokens. -/
theorem tokens_append_blanks
    {before after : List Char}
    (hbefore : ∀ c ∈ before, isBlank c = true)
    (hafter : ∀ c ∈ after, isBlank c = true)
    (text : List Char) :
    tokens (before ++ text ++ after) = tokens text := by
  cases after with
  | nil => rw [List.append_nil, tokens_blanks_append hbefore]
  | cons c after =>
      obtain ⟨hc, hrest⟩ := List.forall_mem_cons.mp hafter
      rw [tokens_append_blank hc, tokens_blanks_append hbefore, tokens_eq_nil hrest,
        List.append_nil]

/-- Trimming takes away blanks at both ends and nothing else. -/
theorem exists_eq_append_trim_append
    (text : List Char) :
    ∃ before after,
      (∀ c ∈ before, isBlank c = true) ∧
      (∀ c ∈ after, isBlank c = true) ∧
      text = before ++ trim text ++ after := by
  have hend :
      trim text ++ (text.dropWhile isBlank).rtakeWhile isBlank = text.dropWhile isBlank :=
    List.rdropWhile_append_rtakeWhile
  refine ⟨text.takeWhile isBlank, (text.dropWhile isBlank).rtakeWhile isBlank,
    fun c hc => List.mem_takeWhile_imp hc, fun c hc => List.mem_rtakeWhile_imp hc, ?_⟩
  calc
    text = text.takeWhile isBlank ++ text.dropWhile isBlank :=
      List.takeWhile_append_dropWhile.symm
    _ = text.takeWhile isBlank ++ trim text ++ (text.dropWhile isBlank).rtakeWhile isBlank := by
      rw [List.append_assoc, hend]

theorem mem_of_mem_trim
    {text : List Char}
    {c : Char}
    (h : c ∈ trim text) :
    c ∈ text := by
  obtain ⟨before, after, -, -, htext⟩ := exists_eq_append_trim_append text
  rw [htext]
  exact List.mem_append_left after (List.mem_append_right before h)

/-- Blanks around a text make no difference when it is trimmed. -/
theorem trim_append_blanks
    {before after : List Char}
    (hbefore : ∀ c ∈ before, isBlank c = true)
    (hafter : ∀ c ∈ after, isBlank c = true)
    (text : List Char) :
    trim (before ++ text ++ after) = trim text := by
  rw [trim, trim, List.append_assoc, List.dropWhile_append_of_pos hbefore, List.dropWhile_append]
  split
  · next hblank =>
      rw [List.dropWhile_eq_nil_iff.mpr hafter, List.isEmpty_iff.mp hblank]
  · have hreverse : ∀ c ∈ after.reverse, isBlank c = true :=
      fun c hc => hafter c (List.mem_reverse.mp hc)
    rw [List.reverse_append, List.dropWhile_append_of_pos hreverse]

@[simp] theorem trim_trim
    (text : List Char) :
    trim (trim text) = trim text := by
  obtain ⟨before, after, hbefore, hafter, htext⟩ := exists_eq_append_trim_append text
  have hsame := trim_append_blanks hbefore hafter (trim text)
  rw [← htext] at hsame
  exact hsame.symm

@[simp] theorem tokens_trim
    (text : List Char) :
    tokens (trim text) = tokens text := by
  obtain ⟨before, after, hbefore, hafter, htext⟩ := exists_eq_append_trim_append text
  have hsame := tokens_append_blanks hbefore hafter (trim text)
  rw [← htext] at hsame
  exact hsame.symm

/-- A token is the only token of its text. -/
theorem IsToken.tokens_eq
    {text : List Char}
    (h : IsToken text) :
    tokens text = [text] := by
  have hwhole : text.splitOnP isBlank = [text] :=
    List.splitOnP_eq_singleton h.2
  simp [tokens, hwhole, h.1]

/-- There is no blank to remove around a token. -/
theorem IsToken.trim_eq
    {text : List Char}
    (h : IsToken text) :
    trim text = text := by
  have hkeep : ∀ piece : List Char, (∀ c ∈ piece, isBlank c = false) →
      piece.dropWhile isBlank = piece := by
    intro piece hpiece
    cases piece with
    | nil => rfl
    | cons c rest =>
        exact List.dropWhile_cons_of_neg (by simp [hpiece c List.mem_cons_self])
  have hreverse : ∀ c ∈ text.reverse, isBlank c = false :=
    fun c hc => h.2 c (List.mem_reverse.mp hc)
  rw [trim, hkeep text h.2, hkeep text.reverse hreverse, List.reverse_reverse]

/-- The tokens of texts with spaces between them are those of the texts. -/
theorem tokens_intercalate_space
    (texts : List (List Char)) :
    tokens ([' '].intercalate texts) = texts.flatMap tokens := by
  induction texts with
  | nil => rfl
  | cons text texts ih =>
      by_cases hlast : texts = []
      · subst hlast
        simp
      · rw [List.intercalate_cons_of_ne_nil hlast, List.append_assoc, List.singleton_append,
          tokens_append_blank isBlank_space, ih, List.flatMap_cons]

/-- Tokens with spaces between them are the tokens of the line that they make. -/
theorem tokens_joined
    {texts : List (List Char)}
    (h : ∀ text ∈ texts, IsToken text) :
    tokens ([' '].intercalate texts) = texts := by
  rw [tokens_intercalate_space]
  induction texts with
  | nil => rfl
  | cons text texts ih =>
      have hrest : texts.flatMap tokens = texts :=
        ih fun other hother => h other (List.mem_cons_of_mem _ hother)
      rw [List.flatMap_cons, (h text List.mem_cons_self).tokens_eq, hrest]
      rfl

end Text
end Determinization
