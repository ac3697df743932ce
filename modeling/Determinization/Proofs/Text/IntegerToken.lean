import Mathlib.Data.Nat.Digits.Defs
import Mathlib.Tactic.Common
import Determinization.Proofs.Text.Literal

/-!
# Integer tokens

An integer token is an optional sign in front of groups of digits, with one underscore between
two groups.  The digits may belong to several scripts.  All groups together have at most
`maxDigits` digits, whose values, read in base ten, give the number behind the sign.

**Results.**
* `integer?_eq_some_iff`: the reader of integers accepts these tokens and returns their values.
* `integer?_numeral` and `withinLimit_of_integer?`: a numeral within the limit is read back, and
  nothing that is read exceeds the limit.
-/

namespace Determinization
namespace Text

/-- Groups of digits, joined by underscores, with the given digit values. -/
def IsDigitBlock
    (block : List Char)
    (digits : List Nat) :
    Prop :=
  ∃ groups : List (List Char),
    groups ≠ [] ∧
    (∀ group ∈ groups, group ≠ []) ∧
    block = ['_'].intercalate groups ∧
    groups.flatten.map digitValue? = digits.map some

/-- The signs that may stand in front of a number, and what they do to it. -/
inductive HasSign : List Char → Nat → Int → Prop
  | none (n : Nat) : HasSign [] n n
  | plus (n : Nat) : HasSign ['+'] n n
  | minus (n : Nat) : HasSign ['-'] n (-n)

/-- The token is an integer token and denotes the integer. -/
def Denotes
    (token : List Char)
    (n : Int) :
    Prop :=
  ∃ sign block digits,
    token = sign ++ block ∧
    IsDigitBlock block digits ∧
    digits.length ≤ maxDigits ∧
    HasSign sign (Nat.ofDigits 10 digits.reverse) n

/-- The integer has no more decimal digits than a token may have. -/
def WithinLimit (n : Int) : Prop :=
  (naturalNumeral n.natAbs).length ≤ maxDigits

/-- The token is an integer token. -/
def IsIntegerToken (token : List Char) : Prop :=
  ∃ n, Denotes token n

section Digits

/-- A digit is neither an underscore nor a sign. -/
theorem ne_of_digitValue?
    {c mark : Char}
    {d : Nat}
    (hmark : digitValue? mark = none)
    (h : digitValue? c = some d) :
    c ≠ mark := by
  rintro rfl
  rw [hmark] at h
  cases h

theorem positional_eq_ofDigits
    (digits : List Nat) :
    positional digits = Nat.ofDigits 10 digits.reverse := by
  rw [Nat.ofDigits_eq_foldr, List.foldr_reverse, positional]
  congr 1
  funext n d
  simp [Nat.add_comm]

end Digits

section Blocks

theorem isDigitBlock_singleton
    {c : Char}
    {d : Nat}
    (h : digitValue? c = some d) :
    IsDigitBlock [c] [d] :=
  ⟨[[c]], by simp, by simp, by simp, by simpa using h⟩

/-- A digit may be put in front of a block directly. -/
theorem IsDigitBlock.cons
    {c : Char}
    {d : Nat}
    {block : List Char}
    {digits : List Nat}
    (hc : digitValue? c = some d)
    (h : IsDigitBlock block digits) :
    IsDigitBlock (c :: block) (d :: digits) := by
  obtain ⟨groups, hne, hgroups, rfl, hdigits⟩ := h
  cases groups with
  | nil => exact absurd rfl hne
  | cons group groups =>
      refine ⟨(c :: group) :: groups, by simp, ?_, ?_, ?_⟩
      · intro g hg
        rcases List.mem_cons.mp hg with rfl | hg
        · simp
        · exact hgroups g (List.mem_cons_of_mem _ hg)
      · rw [List.intercalate_cons_cons_left]
      · simpa [hc] using hdigits

/-- A digit may be put in front of a block with an underscore between them. -/
theorem IsDigitBlock.cons_underscore
    {c : Char}
    {d : Nat}
    {block : List Char}
    {digits : List Nat}
    (hc : digitValue? c = some d)
    (h : IsDigitBlock block digits) :
    IsDigitBlock (c :: '_' :: block) (d :: digits) := by
  obtain ⟨groups, hne, hgroups, rfl, hdigits⟩ := h
  refine ⟨[c] :: groups, by simp, ?_, ?_, ?_⟩
  · intro g hg
    rcases List.mem_cons.mp hg with rfl | hg
    · simp
    · exact hgroups g hg
  · rw [List.intercalate_cons_of_ne_nil hne]
    rfl
  · simpa [hc] using hdigits

/-- A block is a digit, or a digit in front of a block, perhaps with an underscore between. -/
theorem IsDigitBlock.exists_first
    {block : List Char}
    {digits : List Nat}
    (h : IsDigitBlock block digits) :
    ∃ c d, digitValue? c = some d ∧
      ((block = [c] ∧ digits = [d]) ∨
        ∃ rest ds,
          IsDigitBlock rest ds ∧
          digits = d :: ds ∧
          (block = c :: rest ∨ block = c :: '_' :: rest)) := by
  obtain ⟨groups, hne, hgroups, rfl, hdigits⟩ := h
  cases groups with
  | nil => exact absurd rfl hne
  | cons group groups =>
      have hgroup : group ≠ [] := hgroups group List.mem_cons_self
      have hlater : ∀ g ∈ groups, g ≠ [] := fun g hg => hgroups g (List.mem_cons_of_mem _ hg)
      cases group with
      | nil => exact absurd rfl hgroup
      | cons c group =>
          rw [List.flatten_cons, List.cons_append, List.map_cons, eq_comm] at hdigits
          obtain ⟨d, ds, rfl, hc, hds⟩ := List.map_eq_cons_iff.mp hdigits
          refine ⟨c, d, hc.symm, ?_⟩
          by_cases hlast : group = [] ∧ groups = []
          · obtain ⟨rfl, rfl⟩ := hlast
            exact Or.inl ⟨by simp, by simpa using hds⟩
          · refine Or.inr ?_
            cases group with
            | nil =>
                -- The first digit is a group of its own, and an underscore follows it.
                have hmore : groups ≠ [] := fun hnone => hlast ⟨rfl, hnone⟩
                refine ⟨_, ds, ⟨groups, hmore, hlater, rfl, hds.symm⟩, rfl, Or.inr ?_⟩
                rw [List.intercalate_cons_of_ne_nil hmore]
                rfl
            | cons e group =>
                refine ⟨_, ds, ⟨(e :: group) :: groups, by simp, ?_, rfl, hds.symm⟩, rfl, Or.inl ?_⟩
                · exact List.forall_mem_cons.mpr ⟨by simp, hlater⟩
                · rw [List.intercalate_cons_cons_left]

/-- A block begins with a digit. -/
theorem IsDigitBlock.exists_head
    {block : List Char}
    {digits : List Nat}
    (h : IsDigitBlock block digits) :
    ∃ c rest d, digitValue? c = some d ∧ block = c :: rest := by
  obtain ⟨c, d, hc, ⟨rfl, -⟩ | ⟨_, _, -, -, rfl | rfl⟩⟩ := h.exists_first
  · exact ⟨c, _, d, hc, rfl⟩
  · exact ⟨c, _, d, hc, rfl⟩
  · exact ⟨c, _, d, hc, rfl⟩

/-- The reader goes on behind a character if no underscore follows it. -/
theorem digitBlock?_cons
    {c : Char}
    {rest : List Char}
    (hne : rest ≠ [])
    (hunderscore : rest.head? ≠ some '_') :
    digitBlock? (c :: rest)
      =
    (digitValue? c).bind fun d => (digitBlock? rest).map fun ds => d :: ds := by
  rw [digitBlock?.eq_4 c rest hne (fun _ h => hunderscore (by rw [h, List.head?_cons]))]
  cases digitValue? c <;> cases digitBlock? rest <;> rfl

/-- A block does not begin with an underscore. -/
theorem IsDigitBlock.head?_ne_underscore
    {block : List Char}
    {digits : List Nat}
    (h : IsDigitBlock block digits) :
    block ≠ [] ∧ block.head? ≠ some '_' := by
  obtain ⟨e, more, d, he, rfl⟩ := h.exists_head
  exact ⟨by simp, by simpa using ne_of_digitValue? (by decide) he⟩

theorem digitBlock?_eq_some_iff
    {block : List Char}
    {digits : List Nat} :
    digitBlock? block = some digits ↔ IsDigitBlock block digits := by
  constructor
  · intro h
    fun_induction digitBlock? block generalizing digits with
    | case1 => cases h
    | case2 c =>
        obtain ⟨d, hd, rfl⟩ := Option.map_eq_some_iff.mp h
        exact isDigitBlock_singleton hd
    | case3 c rest ih =>
        obtain ⟨d, hd, h⟩ := Option.bind_eq_some_iff.mp h
        obtain ⟨ds, hds, h⟩ := Option.bind_eq_some_iff.mp h
        cases h
        exact (ih hds).cons_underscore hd
    | case4 c rest _ _ ih =>
        obtain ⟨d, hd, h⟩ := Option.bind_eq_some_iff.mp h
        obtain ⟨ds, hds, h⟩ := Option.bind_eq_some_iff.mp h
        cases h
        exact (ih hds).cons hd
  · intro h
    induction digits generalizing block with
    | nil =>
        obtain ⟨c, d, -, ⟨-, hnil⟩ | ⟨_, _, -, hnil, -⟩⟩ := h.exists_first
        · cases hnil
        · cases hnil
    | cons d ds ih =>
        obtain ⟨c, e, hc, ⟨rfl, hdigits⟩ | ⟨rest, es, hrest, hdigits, hblock⟩⟩ := h.exists_first
        · cases hdigits
          simp [digitBlock?, hc]
        · cases hdigits
          rcases hblock with rfl | rfl
          · obtain ⟨hne, hunderscore⟩ := hrest.head?_ne_underscore
            rw [digitBlock?_cons hne hunderscore, hc, ih hrest]
            rfl
          · simp [digitBlock?, hc, ih hrest]

/-- The values in a block are values of digits. -/
theorem IsDigitBlock.lt_ten
    {block : List Char}
    {digits : List Nat}
    (h : IsDigitBlock block digits) :
    ∀ d ∈ digits, d < 10 := by
  obtain ⟨groups, -, -, -, hdigits⟩ := h
  intro d hd
  have hvalue : some d ∈ groups.flatten.map digitValue? := by
    rw [hdigits]
    exact List.mem_map_of_mem hd
  obtain ⟨c, -, hc⟩ := List.mem_map.mp hvalue
  exact digitValue?_lt hc

end Blocks

section Reader

theorem magnitude?_eq_some_iff
    {block : List Char}
    {m : Nat} :
    magnitude? block = some m
      ↔
    ∃ digits,
      IsDigitBlock block digits ∧
      digits.length ≤ maxDigits ∧
      Nat.ofDigits 10 digits.reverse = m := by
  simp only [magnitude?, Option.bind_eq_bind, Option.bind_eq_some_iff, digitBlock?_eq_some_iff,
    ← positional_eq_ofDigits]
  refine exists_congr fun digits => and_congr_right fun _ => ?_
  split
  · next hle => simp [hle]
  · next hlong => simp [hlong]

theorem integer?_plus
    (block : List Char) :
    integer? ('+' :: block) = Option.map (fun m : Nat => (m : Int)) (magnitude? block) := by
  cases hm : magnitude? block <;> simp [integer?, hm]

theorem integer?_minus
    (block : List Char) :
    integer? ('-' :: block) = Option.map (fun m : Nat => -(m : Int)) (magnitude? block) := by
  cases hm : magnitude? block <;> simp [integer?, hm]

theorem integer?_unsigned
    {token : List Char}
    (hplus : ∀ block, token ≠ '+' :: block)
    (hminus : ∀ block, token ≠ '-' :: block) :
    integer? token = Option.map (fun m : Nat => (m : Int)) (magnitude? token) := by
  rw [integer?.eq_3 token hplus hminus]
  cases hm : magnitude? token <;> simp

/-- A block is read without a sign. -/
theorem integer?_of_isDigitBlock
    {block : List Char}
    {digits : List Nat}
    (h : IsDigitBlock block digits) :
    integer? block = Option.map (fun m : Nat => (m : Int)) (magnitude? block) := by
  obtain ⟨c, more, d, hc, rfl⟩ := h.exists_head
  refine integer?_unsigned ?_ ?_
  · exact fun _ h => ne_of_digitValue? (by decide) hc (List.cons.inj h).1
  · exact fun _ h => ne_of_digitValue? (by decide) hc (List.cons.inj h).1

/-- The reader accepts exactly the integer tokens, and returns the integers that they denote. -/
theorem integer?_eq_some_iff
    {token : List Char}
    {n : Int} :
    integer? token = some n ↔ Denotes token n := by
  constructor
  · intro h
    -- The three cases of the reader are the three signs.
    have hdenotes : ∀ (sign block : List Char) (f : Nat → Int),
        (∀ m, HasSign sign m (f m)) → Option.map f (magnitude? block) = some n →
        Denotes (sign ++ block) n := by
      intro sign block f hsign hread
      obtain ⟨m, hm, rfl⟩ := Option.map_eq_some_iff.mp hread
      obtain ⟨digits, hblock, hlength, rfl⟩ := magnitude?_eq_some_iff.mp hm
      exact ⟨sign, block, digits, rfl, hblock, hlength, hsign _⟩
    by_cases hplus : ∃ block, token = '+' :: block
    · obtain ⟨block, rfl⟩ := hplus
      exact hdenotes ['+'] block _ .plus (integer?_plus block ▸ h)
    · by_cases hminus : ∃ block, token = '-' :: block
      · obtain ⟨block, rfl⟩ := hminus
        exact hdenotes ['-'] block _ .minus (integer?_minus block ▸ h)
      · rw [integer?_unsigned (not_exists.mp hplus) (not_exists.mp hminus)] at h
        exact hdenotes [] token _ .none h
  · rintro ⟨sign, block, digits, rfl, hblock, hlength, hsign⟩
    have hm : magnitude? block = some (Nat.ofDigits 10 digits.reverse) :=
      magnitude?_eq_some_iff.mpr ⟨digits, hblock, hlength, rfl⟩
    cases hsign with
    | none => rw [List.nil_append, integer?_of_isDigitBlock hblock, hm, Option.map_some]
    | plus => rw [List.singleton_append, integer?_plus, hm, Option.map_some]
    | minus => rw [List.singleton_append, integer?_minus, hm, Option.map_some]

theorem isIntegerToken_iff
    {token : List Char} :
    IsIntegerToken token ↔ ∃ n, integer? token = some n := by
  simp [IsIntegerToken, integer?_eq_some_iff]

theorem HasSign.natAbs_eq
    {sign : List Char}
    {m : Nat}
    {n : Int}
    (h : HasSign sign m n) :
    n.natAbs = m := by
  cases h <;> simp

/-- What is read has no more digits than a token may have. -/
theorem withinLimit_of_integer?
    {token : List Char}
    {n : Int}
    (h : integer? token = some n) :
    WithinLimit n := by
  obtain ⟨sign, block, digits, -, hblock, hlength, hsign⟩ := integer?_eq_some_iff.mp h
  have hlt : Nat.ofDigits 10 digits.reverse < 10 ^ digits.reverse.length := by
    refine Nat.ofDigits_lt_base_pow_length (by decide) ?_
    simpa using hblock.lt_ten
  rw [List.length_reverse] at hlt
  rw [WithinLimit, naturalNumeral, Nat.length_toDigits_le_iff (by decide) (by decide),
    hsign.natAbs_eq]
  exact hlt.trans_le (Nat.pow_le_pow_right (by decide) hlength)

end Reader

section Numerals

/-- The numeral of a natural number is a block of one group. -/
theorem isDigitBlock_naturalNumeral
    (n : Nat) :
    IsDigitBlock (naturalNumeral n) ((naturalNumeral n).map fun c => c.toNat - '0'.toNat) := by
  refine ⟨[naturalNumeral n], by simp, ?_, by simp, ?_⟩
  · intro group hgroup
    rw [List.mem_singleton.mp hgroup]
    exact Nat.toDigits_ne_nil
  · rw [List.flatten_singleton, List.map_map]
    refine List.map_congr_left fun c hc => ?_
    exact digitValue?_of_isDigit (isDigit_of_mem_naturalNumeral hc)

theorem magnitude?_naturalNumeral
    {n : Nat}
    (h : (naturalNumeral n).length ≤ maxDigits) :
    magnitude? (naturalNumeral n) = some n := by
  refine magnitude?_eq_some_iff.mpr ⟨_, isDigitBlock_naturalNumeral n, by simpa using h, ?_⟩
  rw [← positional_eq_ofDigits, positional, List.foldl_map, naturalNumeral,
    ← Nat.ofDigitChars_eq_foldl, Nat.ofDigitChars_ten_toDigits]

/-- A numeral within the limit on digits is read back. -/
theorem integer?_numeral
    {n : Int}
    (h : WithinLimit n) :
    integer? (numeral n).toList = some n := by
  cases n with
  | ofNat n =>
      have hread : magnitude? (naturalNumeral n) = some n := magnitude?_naturalNumeral h
      rw [toList_numeral_ofNat, integer?_of_isDigitBlock (isDigitBlock_naturalNumeral n), hread]
      rfl
  | negSucc n =>
      have hread : magnitude? (naturalNumeral (n + 1)) = some (n + 1) := magnitude?_naturalNumeral h
      rw [toList_numeral_negSucc, integer?_minus, hread]
      rfl

end Numerals

end Text
end Determinization
