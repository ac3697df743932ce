import Determinization.StateSet
import Determinization.Proofs.Subsets
import Determinization.Proofs.Text.Lines

/-!
# Numerals and set literals

A set is written in an automaton file as the list of its members between brackets.  The numerals
of the members have neither commas nor brackets, so the literal ends at its first closing
bracket, and its members can be read back.  The same holds of the text for people, which has braces
in place of the brackets, and a sign of its own for the empty set.

**Results.** `numeral_injective`, `brackets_append_inj` and `braces_append_inj`: a numeral determines
its integer, and both literals determine their set whatever text follows them.
-/

namespace Determinization

namespace Text

/-- The characters of numerals: digits and the sign. -/
def IsNumeralChar (c : Char) : Prop :=
  c = '-' ∨ c.isDigit = true

theorem isDigit_of_mem_naturalNumeral
    {n : Nat}
    {c : Char}
    (h : c ∈ naturalNumeral n) :
    c.isDigit = true :=
  Nat.isDigit_of_mem_toDigits (by decide) (by decide) h

theorem naturalNumeral_injective :
    Function.Injective naturalNumeral := by
  intro m n h
  have hread := congrArg (fun digits => Nat.ofDigitChars 10 digits 0) h
  simpa [naturalNumeral] using hread

theorem toList_numeral_ofNat
    (n : Nat) :
    (numeral (.ofNat n)).toList = naturalNumeral n := by
  simp only [numeral, String.toList_ofList]

theorem toList_numeral_negSucc
    (n : Nat) :
    (numeral (.negSucc n)).toList = '-' :: naturalNumeral (n + 1) := by
  simp only [numeral, String.toList_ofList]

theorem isNumeralChar_of_mem_numeral
    {n : Int}
    {c : Char}
    (h : c ∈ (numeral n).toList) :
    IsNumeralChar c := by
  cases n with
  | ofNat n =>
      rw [toList_numeral_ofNat] at h
      exact Or.inr (isDigit_of_mem_naturalNumeral h)
  | negSucc n =>
      rw [toList_numeral_negSucc] at h
      exact (List.mem_cons.mp h).imp_right isDigit_of_mem_naturalNumeral

theorem numeral_toList_ne_nil
    (n : Int) :
    (numeral n).toList ≠ [] := by
  cases n with
  | ofNat n =>
      rw [toList_numeral_ofNat]
      exact Nat.toDigits_ne_nil
  | negSucc n =>
      rw [toList_numeral_negSucc]
      simp

theorem naturalNumeral_ne_sign_cons
    (m : Nat)
    (digits : List Char) :
    naturalNumeral m ≠ '-' :: digits := by
  intro h
  have hdigit : ('-' : Char).isDigit = true :=
    isDigit_of_mem_naturalNumeral (n := m) (h ▸ List.mem_cons_self)
  exact absurd hdigit (by decide)

theorem numeral_injective :
    Function.Injective numeral := by
  intro m n h
  have hlist : (numeral m).toList = (numeral n).toList := congrArg String.toList h
  cases m with
  | ofNat m =>
      cases n with
      | ofNat n =>
          rw [toList_numeral_ofNat, toList_numeral_ofNat] at hlist
          rw [naturalNumeral_injective hlist]
      | negSucc n =>
          rw [toList_numeral_ofNat, toList_numeral_negSucc] at hlist
          exact absurd hlist (naturalNumeral_ne_sign_cons m _)
  | negSucc m =>
      cases n with
      | ofNat n =>
          rw [toList_numeral_ofNat, toList_numeral_negSucc] at hlist
          exact absurd hlist.symm (naturalNumeral_ne_sign_cons n _)
      | negSucc n =>
          rw [toList_numeral_negSucc, toList_numeral_negSucc] at hlist
          have hsucc := naturalNumeral_injective (List.cons.inj hlist).2
          rw [Nat.succ_injective hsucc]

/-- Neither digits nor signs are blanks. -/
theorem IsNumeralChar.isBlank_eq_false
    {c : Char}
    (h : IsNumeralChar c) :
    isBlank c = false := by
  rcases h with rfl | hdigit
  · decide
  · have hrange : 48 ≤ c.toNat ∧ c.toNat ≤ 57 := by
      simpa [Char.isDigit, UInt32.le_iff_toNat_le] using hdigit
    rw [Bool.eq_false_iff]
    simp only [isBlank, blankRanges, Ne, inRanges_iff, List.mem_cons, List.not_mem_nil,
      or_false, exists_eq_or_imp, exists_eq_left]
    omega

theorem isToken_numeral
    (n : Int) :
    IsToken (numeral n).toList :=
  ⟨numeral_toList_ne_nil n, fun _ hc => (isNumeralChar_of_mem_numeral hc).isBlank_eq_false⟩

theorem isLine_numeral
    (n : Int) :
    IsLine (numeral n).toList :=
  (isToken_numeral n).isLine

/-- The numerals of a list of integers, with a separator between them. -/
def joinedNumerals
    (separator : List Char)
    (states : List Int) :
    List Char :=
  separator.intercalate (states.map fun q => (numeral q).toList)

theorem mem_joinedNumerals
    {separator : List Char}
    {states : List Int}
    {c : Char}
    (h : c ∈ joinedNumerals separator states) :
    IsNumeralChar c ∨ c ∈ separator := by
  refine (mem_intercalate h).imp_left ?_
  rintro ⟨text, htext, hc⟩
  obtain ⟨q, -, rfl⟩ := List.mem_map.mp htext
  exact isNumeralChar_of_mem_numeral hc

theorem comma_not_mem_numeral
    (n : Int) :
    ',' ∉ (numeral n).toList := by
  intro h
  rcases isNumeralChar_of_mem_numeral h with hc | hc <;> exact absurd hc (by decide)

/-- Integers are read back from their numerals between separators that begin with a comma. -/
theorem joinedNumerals_inj
    {separator : List Char}
    {states others : List Int}
    (h : joinedNumerals (',' :: separator) states = joinedNumerals (',' :: separator) others) :
    states = others := by
  have hinjective : Function.Injective fun q => (numeral q).toList := by
    intro p q hpq
    exact numeral_injective (String.toList_injective hpq)
  have hseparable :
      Separable (fun text => text ≠ [] ∧ ',' ∉ text) (',' :: separator) :=
    separable_of_not_mem fun _ h => h.2
  have hnumerals : ∀ states : List Int, ∀ q ∈ states,
      (numeral q).toList ≠ [] ∧ ',' ∉ (numeral q).toList :=
    fun _ q _ => ⟨numeral_toList_ne_nil q, comma_not_mem_numeral q⟩
  exact intercalate_map_inj hinjective hseparable (by simp) (fun _ h => h.1)
    (hnumerals states) (hnumerals others) h

end Text

/-- A list of states is written as an opening bracket, the numerals, and a closing bracket. -/
theorem toList_bracketsText
    (states : List Int) :
    (bracketsText states).toList = '[' :: (Text.joinedNumerals [',', ' '] states ++ [']']) := by
  have hseparator : (", " : String).toList = [',', ' '] := rfl
  simp [bracketsText, Text.joinedNumerals, hseparator, Function.comp_def]

/-- There is no closing bracket between the brackets. -/
theorem bracket_not_mem_joinedNumerals
    (states : List Int) :
    ']' ∉ Text.joinedNumerals [',', ' '] states := by
  intro h
  rcases Text.mem_joinedNumerals h with (hc | hc) | hc <;> exact absurd hc (by decide)

/-- A list is read back from its text between brackets whatever follows the text. -/
theorem bracketsText_append_inj
    {states others : List Int}
    {u v : List Char}
    (h : (bracketsText states).toList ++ u = (bracketsText others).toList ++ v) :
    states = others ∧ u = v := by
  rw [toList_bracketsText, toList_bracketsText] at h
  simp only [List.cons_append, List.append_assoc, List.nil_append, List.cons.injEq,
    true_and] at h
  obtain ⟨hmembers, hrest⟩ :=
    (Text.append_cons_inj (bracket_not_mem_joinedNumerals _)
      (bracket_not_mem_joinedNumerals _)).mp h
  exact ⟨Text.joinedNumerals_inj hmembers, hrest⟩

/-- A list of states is written as its numerals between braces, if it is not empty. -/
theorem toList_bracesText_of_ne_nil
    {states : List Int}
    (hstates : states ≠ []) :
    (bracesText states).toList = '\x7b' :: (Text.joinedNumerals [','] states ++ ['\x7d']) := by
  have hseparator : ("," : String).toList = [','] := rfl
  simp [bracesText, Text.joinedNumerals, hstates, hseparator, Function.comp_def]

@[simp] theorem toList_bracesText_nil :
    (bracesText []).toList = ['∅'] :=
  rfl

/-- There is no closing brace between the braces. -/
theorem brace_not_mem_joinedNumerals
    (states : List Int) :
    '\x7d' ∉ Text.joinedNumerals [','] states := by
  intro h
  rcases Text.mem_joinedNumerals h with (hc | hc) | hc <;> exact absurd hc (by decide)

/-- A list is read back from its text between braces whatever follows the text. -/
theorem bracesText_append_inj
    {states others : List Int}
    {u v : List Char}
    (h : (bracesText states).toList ++ u = (bracesText others).toList ++ v) :
    states = others ∧ u = v := by
  by_cases hstates : states = [] <;> by_cases hothers : others = []
  · subst hstates hothers
    exact ⟨rfl, List.append_cancel_left h⟩
  · simp [hstates, toList_bracesText_of_ne_nil hothers] at h
  · simp [hothers, toList_bracesText_of_ne_nil hstates] at h
  · rw [toList_bracesText_of_ne_nil hstates, toList_bracesText_of_ne_nil hothers] at h
    simp only [List.cons_append, List.append_assoc, List.nil_append, List.cons.injEq,
      true_and] at h
    obtain ⟨hmembers, hrest⟩ :=
      (Text.append_cons_inj (brace_not_mem_joinedNumerals _)
        (brace_not_mem_joinedNumerals _)).mp h
    exact ⟨Text.joinedNumerals_inj hmembers, hrest⟩

namespace StateSet

/-- A literal is an opening bracket, the numerals of the members, and a closing bracket. -/
theorem toList_brackets
    (s : StateSet) :
    s.brackets.toList = '[' :: (Text.joinedNumerals [',', ' '] s.toList ++ [']']) :=
  toList_bracketsText s.toList

/-- A set is read back from its literal whatever follows the literal. -/
theorem brackets_append_inj
    {s t : StateSet}
    {u v : List Char}
    (h : s.brackets.toList ++ u = t.brackets.toList ++ v) :
    s = t ∧ u = v :=
  (bracketsText_append_inj h).imp_left toList_inj.mp

theorem brackets_injective :
    Function.Injective brackets := by
  intro s t h
  exact (brackets_append_inj (u := []) (v := []) (by rw [h])).1

theorem mem_brackets
    {s : StateSet}
    {c : Char}
    (h : c ∈ s.brackets.toList) :
    c = '[' ∨ c = ']' ∨ c = ',' ∨ c = ' ' ∨ Text.IsNumeralChar c := by
  rw [toList_brackets] at h
  simp only [List.mem_cons, List.mem_append, List.not_mem_nil, or_false] at h
  rcases h with hopen | hmembers | hclose
  · exact Or.inl hopen
  · rcases Text.mem_joinedNumerals hmembers with hnumeral | hseparator
    · exact Or.inr (Or.inr (Or.inr (Or.inr hnumeral)))
    · simp only [List.mem_cons, List.not_mem_nil, or_false] at hseparator
      rcases hseparator with hc | hc
      · exact Or.inr (Or.inr (Or.inl hc))
      · exact Or.inr (Or.inr (Or.inr (Or.inl hc)))
  · exact Or.inr (Or.inl hclose)

theorem isLine_brackets
    (s : StateSet) :
    Text.IsLine s.brackets.toList := by
  intro c hc
  rcases mem_brackets hc with rfl | rfl | rfl | rfl | hnumeral
  · decide
  · decide
  · decide
  · decide
  · exact Text.isLineBreak_eq_false_of_isBlank hnumeral.isBlank_eq_false

/-- A set is written for people as its numerals between braces, if it is not empty. -/
theorem toList_braces_of_ne_empty
    {s : StateSet}
    (hs : s ≠ ∅) :
    s.braces.toList = '\x7b' :: (Text.joinedNumerals [','] s.toList ++ ['\x7d']) :=
  toList_bracesText_of_ne_nil (by simpa using hs)

@[simp] theorem toList_braces_empty :
    (braces ∅).toList = ['∅'] := by
  simp [braces, bracesText]

/-- A set is written with a brace in front, or as the sign of the empty set. -/
theorem head?_braces
    (s : StateSet) :
    s.braces.toList.head? = some '∅' ∨ s.braces.toList.head? = some '\x7b' := by
  by_cases hs : s = ∅
  · rw [hs, toList_braces_empty]
    exact Or.inl rfl
  · rw [toList_braces_of_ne_empty hs]
    exact Or.inr rfl

/-- No set is written with a mark or a dash in front. -/
theorem head?_braces_ne
    (s : StateSet)
    {c : Char}
    (hempty : c ≠ '∅')
    (hbrace : c ≠ '\x7b') :
    s.braces.toList.head? ≠ some c := by
  intro hc
  rcases s.head?_braces with h | h
  · exact hempty (Option.some.inj (hc.symm.trans h))
  · exact hbrace (Option.some.inj (hc.symm.trans h))

/-- A set is not written as the dash that stands for a missing move. -/
theorem braces_ne_dash
    (s : StateSet) :
    s.braces ≠ "-" := by
  intro hdash
  exact s.head?_braces_ne (by decide) (by decide)
    (congrArg (fun text : String => text.toList.head?) hdash)

/-- A set is read back from its text for people whatever follows the text. -/
theorem braces_append_inj
    {s t : StateSet}
    {u v : List Char}
    (h : s.braces.toList ++ u = t.braces.toList ++ v) :
    s = t ∧ u = v :=
  (bracesText_append_inj h).imp_left toList_inj.mp

theorem braces_injective :
    Function.Injective braces := by
  intro s t h
  exact (braces_append_inj (u := []) (v := []) (by rw [h])).1

theorem mem_braces
    {s : StateSet}
    {c : Char}
    (h : c ∈ s.braces.toList) :
    c = '∅' ∨ c = '\x7b' ∨ c = '\x7d' ∨ c = ',' ∨ Text.IsNumeralChar c := by
  by_cases hs : s = ∅
  · rw [hs, toList_braces_empty, List.mem_singleton] at h
    exact Or.inl h
  · rw [toList_braces_of_ne_empty hs] at h
    simp only [List.mem_cons, List.mem_append, List.not_mem_nil, or_false] at h
    rcases h with hopen | hmembers | hclose
    · exact Or.inr (Or.inl hopen)
    · rcases Text.mem_joinedNumerals hmembers with hnumeral | hseparator
      · exact Or.inr (Or.inr (Or.inr (Or.inr hnumeral)))
      · exact Or.inr (Or.inr (Or.inr (Or.inl (List.mem_singleton.mp hseparator))))
    · exact Or.inr (Or.inr (Or.inl hclose))

theorem isLine_braces
    (s : StateSet) :
    Text.IsLine s.braces.toList := by
  intro c hc
  rcases mem_braces hc with rfl | rfl | rfl | rfl | hnumeral
  · decide
  · decide
  · decide
  · decide
  · exact Text.isLineBreak_eq_false_of_isBlank hnumeral.isBlank_eq_false

end StateSet

end Determinization
