import Mathlib.Logic.Relation
import Determinization.Proofs.Grammar

/-!
# Spellings of an integer

An integer has many tokens.  Zeros may be inserted in front of its digits, underscores between
them, and a digit may be replaced by a digit of another script that has the same value.  All
digits count towards the limit, those that were inserted too.

**Results.**
* `integer?_append_congr`: what stands in front of two blocks that are read alike does not matter.
* `Respelled.integer?_eq`: every spelling within the limit has the same value.
* `readInteger_spec`: the language of the integer tokens, their values, and the error for all other
  tokens.
-/

namespace Determinization
namespace Text

/-- The number of digits that count towards the limit. -/
def digitCount (token : List Char) : Nat :=
  token.countP isDigit

/-- One step from a token to a longer or another spelling. -/
inductive Respelling : List Char → List Char → Prop
  | leadingZero
      {sign rest : List Char}
      {zero c : Char}
      (hsign : sign = [] ∨ sign = ['+'] ∨ sign = ['-'])
      (hzero : digitValue? zero = some 0)
      (hc : isDigit c = true) :
      Respelling (sign ++ c :: rest) (sign ++ zero :: c :: rest)
  | underscore
      {before after : List Char}
      {c d : Char}
      (hc : isDigit c = true)
      (hd : isDigit d = true) :
      Respelling (before ++ c :: d :: after) (before ++ c :: '_' :: d :: after)
  | otherScript
      {before after : List Char}
      {c d : Char}
      {value : Nat}
      (hc : digitValue? c = some value)
      (hd : digitValue? d = some value) :
      Respelling (before ++ c :: after) (before ++ d :: after)

/-- Steps lead from one token to the other. -/
def Respelled : List Char → List Char → Prop :=
  Relation.ReflTransGen Respelling

section Blocks

theorem head?_digit_ne_underscore
    {c : Char}
    (hc : isDigit c = true)
    (rest : List Char) :
    (c :: rest).head? ≠ some '_' := by
  rw [List.head?_cons, ne_eq, Option.some.injEq]
  rintro rfl
  exact absurd hc (by decide)

/-- Blocks that are read alike are read alike behind other characters. -/
theorem digitBlock?_append_congr
    {c d : Char}
    {rest other : List Char}
    (hc : isDigit c = true)
    (hd : isDigit d = true)
    (h : digitBlock? (c :: rest) = digitBlock? (d :: other))
    (before : List Char) :
    digitBlock? (before ++ c :: rest) = digitBlock? (before ++ d :: other) := by
  induction before using digitBlock?.induct with
  | case1 => exact h
  | case2 x =>
      rw [List.singleton_append, List.singleton_append,
        digitBlock?_cons (List.cons_ne_nil _ _) (head?_digit_ne_underscore hc rest),
        digitBlock?_cons (List.cons_ne_nil _ _) (head?_digit_ne_underscore hd other), h]
  | case3 x before ih =>
      simp only [List.cons_append, digitBlock?, ih]
  | case4 x before hne hunderscore ih =>
      cases before with
      | nil => exact absurd rfl hne
      | cons y before =>
          have hhead : ∀ more, (y :: before ++ more).head? ≠ some '_' := by
            intro more
            rw [List.cons_append, List.head?_cons, ne_eq, Option.some.injEq]
            rintro rfl
            exact hunderscore before rfl
          have hread : ∀ more,
              digitBlock? (x :: (y :: before) ++ more)
                =
              (digitValue? x).bind fun v =>
                (digitBlock? (y :: before ++ more)).map fun vs => v :: vs :=
            fun more => digitBlock?_cons (by simp) (hhead more)
          rw [hread, hread, ih]

theorem magnitude?_append_congr
    {c d : Char}
    {rest other : List Char}
    (hc : isDigit c = true)
    (hd : isDigit d = true)
    (h : digitBlock? (c :: rest) = digitBlock? (d :: other))
    (before : List Char) :
    magnitude? (before ++ c :: rest) = magnitude? (before ++ d :: other) := by
  rw [magnitude?, magnitude?, digitBlock?_append_congr hc hd h before]

/-- An underscore between two digits is not read. -/
theorem digitBlock?_underscore
    {c d : Char}
    (hd : isDigit d = true)
    (after : List Char) :
    digitBlock? (c :: '_' :: d :: after) = digitBlock? (c :: d :: after) := by
  rw [digitBlock?_cons (List.cons_ne_nil _ _) (head?_digit_ne_underscore hd after), digitBlock?]
  cases digitValue? c <;> cases digitBlock? (d :: after) <;> rfl

/-- Of the first character only the value is read. -/
theorem digitBlock?_otherScript
    {c d : Char}
    (h : digitValue? c = digitValue? d)
    (after : List Char) :
    digitBlock? (c :: after) = digitBlock? (d :: after) := by
  cases after with
  | nil => simp only [digitBlock?, h]
  | cons e after =>
      by_cases he : e = '_'
      · subst he
        simp only [digitBlock?, h]
      · have hhead : (e :: after).head? ≠ some '_' := by
          simpa using he
        rw [digitBlock?_cons (by simp) hhead, digitBlock?_cons (by simp) hhead, h]

end Blocks

section Counts

theorem isDigit_of_digitValue?
    {c : Char}
    {value : Nat}
    (h : digitValue? c = some value) :
    isDigit c = true := by
  rw [isDigit, h, Option.isSome_some]

theorem digitCount_cons
    {c : Char}
    (hc : isDigit c = true)
    (rest : List Char) :
    digitCount (c :: rest) = digitCount rest + 1 :=
  List.countP_cons_of_pos hc

theorem digitCount_underscore
    (rest : List Char) :
    digitCount ('_' :: rest) = digitCount rest :=
  List.countP_cons_of_neg (by decide)

theorem digitCount_append
    (before after : List Char) :
    digitCount (before ++ after) = digitCount before + digitCount after :=
  List.countP_append

/-- As many values are read as there are digits. -/
theorem length_eq_digitCount
    {block : List Char}
    {digits : List Nat}
    (h : digitBlock? block = some digits) :
    digits.length = digitCount block := by
  fun_induction digitBlock? block generalizing digits with
  | case1 => cases h
  | case2 c =>
      obtain ⟨d, hd, rfl⟩ := Option.map_eq_some_iff.mp h
      rw [digitCount_cons (isDigit_of_digitValue? hd)]
      rfl
  | case3 c rest ih =>
      obtain ⟨d, hd, h⟩ := Option.bind_eq_some_iff.mp h
      obtain ⟨ds, hds, h⟩ := Option.bind_eq_some_iff.mp h
      cases h
      rw [digitCount_cons (isDigit_of_digitValue? hd), digitCount_underscore, List.length_cons,
        ih hds]
  | case4 c rest _ _ ih =>
      obtain ⟨d, hd, h⟩ := Option.bind_eq_some_iff.mp h
      obtain ⟨ds, hds, h⟩ := Option.bind_eq_some_iff.mp h
      cases h
      rw [digitCount_cons (isDigit_of_digitValue? hd), List.length_cons, ih hds]

/-- A zero in front of a block keeps its magnitude, unless it is one digit too many. -/
theorem magnitude?_leadingZero
    {zero c : Char}
    {rest : List Char}
    (hzero : digitValue? zero = some 0)
    (hc : isDigit c = true)
    (hlimit : digitCount (zero :: c :: rest) ≤ maxDigits) :
    magnitude? (zero :: c :: rest) = magnitude? (c :: rest) := by
  rw [digitCount_cons (isDigit_of_digitValue? hzero)] at hlimit
  rw [magnitude?, magnitude?,
    digitBlock?_cons (List.cons_ne_nil _ _) (head?_digit_ne_underscore hc rest), hzero]
  cases hdigits : digitBlock? (c :: rest) with
  | none => rfl
  | some digits =>
      have hlength := length_eq_digitCount hdigits
      have hvalue : positional (0 :: digits) = positional digits := by
        simp [positional]
      have hlonger : (0 :: digits).length ≤ maxDigits := by
        rw [List.length_cons]
        omega
      have hshorter : digits.length ≤ maxDigits := by
        omega
      simp only [Option.bind_some, Option.map_some, Option.bind_eq_bind, if_pos hlonger,
        if_pos hshorter, hvalue]

end Counts

section Tokens

/-- A token that does not begin with a sign is a block. -/
theorem integer?_cons_of_ne_sign
    {c : Char}
    (hplus : c ≠ '+')
    (hminus : c ≠ '-')
    (rest : List Char) :
    integer? (c :: rest) = Option.map (fun m : Nat => (m : Int)) (magnitude? (c :: rest)) :=
  integer?_unsigned (fun _ h => hplus (List.cons.inj h).1) (fun _ h => hminus (List.cons.inj h).1)

theorem integer?_digit
    {c : Char}
    (hc : isDigit c = true)
    (rest : List Char) :
    integer? (c :: rest) = Option.map (fun m : Nat => (m : Int)) (magnitude? (c :: rest)) := by
  obtain ⟨value, hvalue⟩ := Option.isSome_iff_exists.mp hc
  exact integer?_cons_of_ne_sign (ne_of_digitValue? (by decide) hvalue)
    (ne_of_digitValue? (by decide) hvalue) rest

/-- Blocks that have the same magnitude have the same value behind a sign. -/
theorem integer?_sign_congr
    {sign : List Char}
    {c d : Char}
    {rest other : List Char}
    (hsign : sign = [] ∨ sign = ['+'] ∨ sign = ['-'])
    (hc : isDigit c = true)
    (hd : isDigit d = true)
    (h : magnitude? (c :: rest) = magnitude? (d :: other)) :
    integer? (sign ++ c :: rest) = integer? (sign ++ d :: other) := by
  rcases hsign with rfl | rfl | rfl
  · rw [List.nil_append, List.nil_append, integer?_digit hc, integer?_digit hd, h]
  · rw [List.singleton_append, List.singleton_append, integer?_plus, integer?_plus, h]
  · rw [List.singleton_append, List.singleton_append, integer?_minus, integer?_minus, h]

/-- What stands in front of two blocks that are read alike does not matter. -/
theorem integer?_append_congr
    {c d : Char}
    {rest other : List Char}
    (hc : isDigit c = true)
    (hd : isDigit d = true)
    (h : digitBlock? (c :: rest) = digitBlock? (d :: other))
    (before : List Char) :
    integer? (before ++ c :: rest) = integer? (before ++ d :: other) := by
  have hmagnitude := magnitude?_append_congr hc hd h
  cases before with
  | nil => exact integer?_sign_congr (Or.inl rfl) hc hd (hmagnitude [])
  | cons x before =>
      rw [List.cons_append, List.cons_append]
      by_cases hplus : x = '+'
      · subst hplus
        rw [integer?_plus, integer?_plus, hmagnitude before]
      · by_cases hminus : x = '-'
        · subst hminus
          rw [integer?_minus, integer?_minus, hmagnitude before]
        · rw [integer?_cons_of_ne_sign hplus hminus, integer?_cons_of_ne_sign hplus hminus]
          exact congrArg _ (hmagnitude (x :: before))

/-- No step takes a digit away. -/
theorem Respelling.digitCount_le
    {token other : List Char}
    (h : Respelling token other) :
    digitCount token ≤ digitCount other := by
  cases h with
  | leadingZero _ hzero _ =>
      rw [digitCount_append, digitCount_append, digitCount_cons (isDigit_of_digitValue? hzero)]
      omega
  | underscore hc _ =>
      rw [digitCount_append, digitCount_append, digitCount_cons hc, digitCount_cons hc,
        digitCount_underscore]
  | otherScript hc hd =>
      rw [digitCount_append, digitCount_append, digitCount_cons (isDigit_of_digitValue? hc),
        digitCount_cons (isDigit_of_digitValue? hd)]

/-- A step within the limit keeps the value. -/
theorem Respelling.integer?_eq
    {token other : List Char}
    (h : Respelling token other)
    (hlimit : digitCount other ≤ maxDigits) :
    integer? other = integer? token := by
  cases h with
  | @leadingZero sign rest zero c hsign hzero hc =>
      rw [digitCount_append] at hlimit
      have hblock : digitCount (zero :: c :: rest) ≤ maxDigits := by
        omega
      exact integer?_sign_congr hsign (isDigit_of_digitValue? hzero) hc
        (magnitude?_leadingZero hzero hc hblock)
  | @underscore before after c d hc hd =>
      exact integer?_append_congr hc hc (digitBlock?_underscore hd after) before
  | @otherScript before after c d value hc hd =>
      exact integer?_append_congr (isDigit_of_digitValue? hd) (isDigit_of_digitValue? hc)
        (digitBlock?_otherScript (hd.trans hc.symm) after) before

/-- Every spelling within the limit has the same value. -/
theorem Respelled.integer?_eq
    {token other : List Char}
    (h : Respelled token other)
    (hlimit : digitCount other ≤ maxDigits) :
    integer? other = integer? token := by
  induction h with
  | refl => rfl
  | tail _ hstep ih => rw [hstep.integer?_eq hlimit, ih (hstep.digitCount_le.trans hlimit)]

end Tokens

end Text

namespace Description

/-- How a token is read where an integer is expected. -/
structure ReadsIntegers
    (line : Nat)
    (field : Field)
    (token : List Char) :
    Prop where
  ok_iff : ∀ n, readInteger line field token = .ok n ↔ Text.Denotes token n
  numeral : ∀ n, Text.WithinLimit n → readInteger line field (Text.numeral n).toList = .ok n
  respelled :
    ∀ other n,
      readInteger line field token = .ok n →
      Text.Respelled token other →
      Text.digitCount other ≤ Text.maxDigits →
      readInteger line field other = .ok n
  refuses :
    ¬ Text.IsIntegerToken token →
    ∃ e,
      readInteger line field token = .error e ∧
      e.line = line ∧
      e.message
        =
      "строка " ++ Text.numeral line ++ ": "
        ++ (field.name ++ ": ожидалось целое, получено '" ++ String.ofList token ++ "'")

/--
Integer tokens are read as the integers that they denote, in every spelling within the limit on
digits, and all other tokens are refused with an error that quotes them.
-/
theorem readInteger_spec
    (line : Nat)
    (field : Field)
    (token : List Char) :
    ReadsIntegers line field token where
  ok_iff := by
    intro n
    rw [readInteger_eq_ok_iff, Text.integer?_eq_some_iff]
  numeral := by
    intro n hn
    exact readInteger_eq_ok_iff.mpr (Text.integer?_numeral hn)
  respelled := by
    intro other n hread hrespelled hlimit
    rw [readInteger_eq_ok_iff] at hread ⊢
    rw [hrespelled.integer?_eq hlimit, hread]
  refuses := by
    intro htoken
    have hnone : Text.integer? token = none := by
      rw [Option.eq_none_iff_forall_ne_some]
      intro n hn
      exact htoken (Text.isIntegerToken_iff.mpr ⟨n, hn⟩)
    refine ⟨⟨line, .notInteger field (String.ofList token)⟩, ?_, rfl,
      FormatError.message_of_notInteger rfl⟩
    rw [readInteger, hnone]

example :
    readInteger 7 .target "-٠1_२".toList = .ok (-12) := by
  decide +kernel

end Description
end Determinization
