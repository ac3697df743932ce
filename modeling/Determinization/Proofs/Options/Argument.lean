import Mathlib.Data.List.Basic
import Mathlib.Tactic.Common
import Determinization.Options.Argument

/-!
# Classification of arguments

The long names of the options have different first characters, so any beginning of a long name that
has at least one character fits one option only.  No long name holds `=`, so the first `=` behind a
long name is the one that attaches a value, whatever the value holds.

**Results.**
* `classify_long`, `classify_long_equals`, `classify_letter`, `classify_letter_equals` and
  `classify_letter_attached`: every spelling of an option is classified as that option, with its
  value.
* `classify_of_isPlain`: what does not look like an option is plain.
-/

namespace Determinization
namespace Options

/-- A text that cannot be taken for an option: if it begins with a dash, only digits follow. -/
def IsPlain (text : String) : Prop :=
  text.toList.head? = some '-' → ∀ c ∈ text.toList.tail, c.isDigit = true

instance (text : String) : Decidable (IsPlain text) :=
  letI : Decidable (∀ c ∈ text.toList.tail, c.isDigit = true) :=
    List.decidableBAll (fun c => c.isDigit = true) text.toList.tail
  inferInstanceAs
    (Decidable (text.toList.head? = some '-' → ∀ c ∈ text.toList.tail, c.isDigit = true))

/-- A beginning of the long name of an option, with one character at least. -/
structure IsCut
    (cut : String)
    (o : OptionName) :
    Prop where
  ne_empty : cut.toList ≠ []
  isPrefix : cut.toList <+: o.long.toList

section LongNames

variable {cut value : String} {o : OptionName}

/-- Options whose long names begin with the same character are the same. -/
theorem OptionName.eq_of_head?_long_eq
    {o other : OptionName}
    (h : o.long.toList.head? = other.long.toList.head?) :
    o = other := by
  revert h
  rcases o with (_ | _ | _) | (_ | _) <;> rcases other with (_ | _ | _) | (_ | _) <;> decide

/-- A beginning of a long name fits one option only. -/
theorem IsCut.isPrefixOf_iff
    (h : IsCut cut o)
    (other : OptionName) :
    cut.toList.isPrefixOf other.long.toList = true ↔ other = o := by
  rw [List.isPrefixOf_iff_prefix]
  constructor
  · rintro ⟨rest, hrest⟩
    obtain ⟨more, hmore⟩ := h.isPrefix
    apply OptionName.eq_of_head?_long_eq
    rw [← hrest, ← hmore, List.head?_append_of_ne_nil _ h.ne_empty,
      List.head?_append_of_ne_nil _ h.ne_empty]
  · rintro rfl
    exact h.isPrefix

theorem IsCut.withBeginning_eq
    (h : IsCut cut o) :
    OptionName.withBeginning cut.toList = [o] := by
  have hfilter :
      OptionName.withBeginning cut.toList = OptionName.all.filter fun other => other = o := by
    refine List.filter_congr fun other _ => ?_
    rw [Bool.eq_iff_iff, h.isPrefixOf_iff other, decide_eq_true_eq]
  rw [hfilter]
  rcases o with (_ | _ | _) | (_ | _) <;> decide

theorem IsCut.equals_not_mem
    (h : IsCut cut o) :
    '=' ∉ cut.toList := by
  have hlong : '=' ∉ o.long.toList := by
    rcases o with (_ | _ | _) | (_ | _) <;> decide
  exact fun hmem => hlong (h.isPrefix.subset hmem)

theorem bne_equals_of_not_mem
    {text : List Char}
    (h : '=' ∉ text) :
    ∀ c ∈ text, (c != '=') = true := by
  intro c hc
  rw [bne_iff_ne]
  rintro rfl
  exact h hc

/-- A text without `=` has nothing attached. -/
theorem splitAtEquals_of_not_mem
    {text : List Char}
    (h : '=' ∉ text) :
    splitAtEquals text = (text, none) := by
  have hdrop : (text.dropWhile fun c => c != '=') = [] := by
    rw [← List.append_nil text, List.dropWhile_append_of_pos (bne_equals_of_not_mem h)]
    rfl
  rw [splitAtEquals, hdrop]

/-- What stands behind the first `=` is attached. -/
theorem splitAtEquals_append
    {text : List Char}
    (h : '=' ∉ text)
    (value : List Char) :
    splitAtEquals (text ++ '=' :: value) = (text, some (String.ofList value)) := by
  have hall := bne_equals_of_not_mem h
  have hdrop : ((text ++ '=' :: value).dropWhile fun c => c != '=') = '=' :: value := by
    rw [List.dropWhile_append_of_pos hall]
    rfl
  have htake : ((text ++ '=' :: value).takeWhile fun c => c != '=') = text := by
    rw [List.takeWhile_append_of_pos hall]
    simp
  rw [splitAtEquals, hdrop, htake]

/-- A long name, cut or not, is classified as its option. -/
theorem classify_long
    (h : IsCut cut o) :
    classify ("--" ++ cut) = .ok (o.argument .long none) := by
  have htext : ("--" ++ cut).toList = '-' :: '-' :: cut.toList := String.toList_append
  rw [classify, htext]
  simp only [classifyLong, splitAtEquals_of_not_mem h.equals_not_mem, h.withBeginning_eq]

/-- A value attached to a long name may be any text. -/
theorem classify_long_equals
    (h : IsCut cut o)
    (value : String) :
    classify ("--" ++ cut ++ "=" ++ value) = .ok (o.argument .long (some value)) := by
  have htext :
      ("--" ++ cut ++ "=" ++ value).toList = '-' :: '-' :: (cut.toList ++ '=' :: value.toList) := by
    have hdashes : "--".toList = ['-', '-'] := rfl
    have hequals : "=".toList = ['='] := rfl
    simp [hdashes, hequals]
  rw [classify, htext]
  simp only [classifyLong, splitAtEquals_append h.equals_not_mem, h.withBeginning_eq,
    String.ofList_toList]

end LongNames

section Letters

variable {value : String} {o : OptionName} {c : Char}

theorem OptionName.ofLetter?_eq
    (h : o.letter? = some c) :
    ofLetter? c = some o := by
  rcases o with (_ | _ | _) | (_ | _) <;> cases h <;> decide

theorem ne_dash_of_letter?
    (h : o.letter? = some c) :
    c ≠ '-' := by
  rcases o with (_ | _ | _) | (_ | _) <;> cases h <;> decide

/-- An argument that begins with the letter of an option is classified as that option. -/
theorem classify_of_letter?
    {text : String}
    (h : o.letter? = some c)
    (body : List Char)
    (htext : text.toList = '-' :: c :: body) :
    classify text = .ok (o.argument .letter (attachedToLetter body)) := by
  rw [classify, htext]
  split
  · next heq =>
      exact absurd (List.cons.inj (List.cons.inj heq).2).1 (ne_dash_of_letter? h)
  · next heq =>
      obtain ⟨rfl, rfl⟩ := List.cons.inj (List.cons.inj heq).2
      simp only [classifyLetter, OptionName.ofLetter?_eq h]
  · next hnone => exact absurd rfl (hnone c body)

theorem classify_letter
    (h : o.letter? = some c) :
    classify ("-" ++ String.singleton c) = .ok (o.argument .letter none) :=
  classify_of_letter? h [] (by simp)

theorem classify_letter_equals
    (h : o.letter? = some c)
    (value : String) :
    classify ("-" ++ String.singleton c ++ "=" ++ value)
      =
    .ok (o.argument .letter (some value)) := by
  rw [classify_of_letter? h ('=' :: value.toList) (by simp), attachedToLetter,
    String.ofList_toList]

/-- Text directly behind a letter is attached unless it is empty or begins with `=`. -/
theorem classify_letter_attached
    (h : o.letter? = some c)
    (hne : value.toList ≠ [])
    (hequals : value.toList.head? ≠ some '=') :
    classify ("-" ++ String.singleton c ++ value) = .ok (o.argument .letter (some value)) := by
  have hattached : attachedToLetter value.toList = some value := by
    rw [attachedToLetter.eq_3 _ hne fun _ heq => hequals (by rw [heq, List.head?_cons]),
      String.ofList_toList]
  rw [classify_of_letter? h value.toList (by simp), hattached]

end Letters

section Plain

/-- A digit is the letter of no option. -/
theorem ofLetter?_of_isDigit
    {c : Char}
    (h : c.isDigit = true) :
    OptionName.ofLetter? c = none := by
  rw [OptionName.ofLetter?, List.find?_eq_none]
  intro o _
  rw [decide_eq_true_eq]
  intro hletter
  rcases o with (_ | _ | _) | (_ | _) <;> cases hletter <;> exact absurd h (by decide)

theorem isUnsignedNumber_of_isDigit
    {digits : List Char}
    (hne : digits ≠ [])
    (h : ∀ c ∈ digits, c.isDigit = true) :
    isUnsignedNumber digits = true := by
  have hfeed : dropFinalFeed digits = digits := by
    rw [dropFinalFeed, if_neg]
    intro hlast
    exact absurd (h '\n' (List.mem_of_getLast? hlast)) (by decide)
  have hdigits : isDigits digits = true := by
    rw [isDigits, Bool.and_eq_true, List.all_eq_true]
    refine ⟨by simpa using hne, fun c hc => ?_⟩
    rw [Text.isDigit, Text.digitValue?_of_isDigit (h c hc), Option.isSome_some]
  rw [isUnsignedNumber, hfeed, hdigits, Bool.true_or]

theorem classify_of_isPlain
    {text : String}
    (h : IsPlain text) :
    classify text = .ok (.plain text) := by
  rw [classify]
  split
  · next body htext =>
      rw [IsPlain, htext] at h
      exact absurd (h rfl '-' List.mem_cons_self) (by decide)
  · next c body _ htext =>
      rw [IsPlain, htext] at h
      have hdigits : ∀ d ∈ c :: body, d.isDigit = true := h rfl
      have hc := ofLetter?_of_isDigit (hdigits c List.mem_cons_self)
      have hnumber := isUnsignedNumber_of_isDigit (List.cons_ne_nil c body) hdigits
      simp only [classifyLetter, hc, hnumber, if_true]
  · rfl

/-- The separator is no argument of its own. -/
theorem ne_separator_of_classify
    {text : String}
    {argument : Argument}
    (h : classify text = .ok argument) :
    text ≠ separator := by
  rintro rfl
  have hseparator : ∀ argument, classify separator ≠ .ok argument := by
    rintro argument hok
    cases hok
  exact hseparator argument h

end Plain

end Options
end Determinization
