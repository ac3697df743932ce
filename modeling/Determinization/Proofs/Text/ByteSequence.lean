import Mathlib.Data.List.Forall2
import Mathlib.Tactic.Common
import Determinization.Proofs.Text.Utf8

/-!
# Well-formed byte sequences

The well-formed sequences of UTF-8 are listed by the ranges of their bytes.  There are sequences of
one to four bytes.  The ranges of the second byte after E0 and F0 leave out the numbers that have a
shorter sequence, those after ED the surrogates, and those after F4 what lies above U+10FFFF.

**Results.**
* `exists_utf8EncodeChar_eq_iff`: the sequences of the table are the bytes of the characters.
* `isWellFormed_iff`: what falls apart into such sequences are the bytes of a text.
* `count_encode`: in them, a byte below 80 hexadecimal occurs as often as its character.
* `isLongestWellFormed_decode`: reading stops behind the longest well-formed beginning.
-/

namespace Determinization
namespace Text
namespace Utf8

/-- An interval of bytes, both ends included. -/
structure ByteRange where
  first : Nat
  last : Nat
  deriving DecidableEq

def ByteRange.Contains
    (r : ByteRange)
    (byte : UInt8) :
    Prop :=
  r.first ≤ byte.toNat ∧ byte.toNat ≤ r.last

/-- The bytes that do not begin a sequence. -/
def continuation : ByteRange :=
  ⟨0x80, 0xBF⟩

/-- The well-formed sequences: each row has a range for each byte. -/
def sequenceTable : List (List ByteRange) :=
  [ [⟨0x00, 0x7F⟩],
    [⟨0xC2, 0xDF⟩, continuation],
    [⟨0xE0, 0xE0⟩, ⟨0xA0, 0xBF⟩, continuation],
    [⟨0xE1, 0xEC⟩, continuation, continuation],
    [⟨0xED, 0xED⟩, ⟨0x80, 0x9F⟩, continuation],
    [⟨0xEE, 0xEF⟩, continuation, continuation],
    [⟨0xF0, 0xF0⟩, ⟨0x90, 0xBF⟩, continuation, continuation],
    [⟨0xF1, 0xF3⟩, continuation, continuation, continuation],
    [⟨0xF4, 0xF4⟩, ⟨0x80, 0x8F⟩, continuation, continuation] ]

/-- The bytes are a sequence of the table. -/
def IsSequence (bytes : List UInt8) : Prop :=
  ∃ row ∈ sequenceTable, List.Forall₂ ByteRange.Contains row bytes

/-- The bytes fall apart into sequences of the table. -/
inductive IsWellFormed : List UInt8 → Prop
  | nil : IsWellFormed []
  | cons
      {sequence rest : List UInt8}
      (hsequence : IsSequence sequence)
      (hrest : IsWellFormed rest) :
      IsWellFormed (sequence ++ rest)

/-- The longest well-formed beginning of the bytes has the given length. -/
structure IsLongestWellFormed
    (bytes : List UInt8)
    (length : Nat) :
    Prop where
  le : length ≤ bytes.length
  isWellFormed : IsWellFormed (bytes.take length)
  longest : ∀ n ≤ bytes.length, IsWellFormed (bytes.take n) → n ≤ length

section Sequences

variable {b₁ b₂ b₃ b₄ : UInt8}

theorem isSequence_one_iff :
    IsSequence [b₁] ↔ b₁.toNat ≤ 0x7F := by
  simp [IsSequence, sequenceTable, ByteRange.Contains]

theorem isSequence_two_iff :
    IsSequence [b₁, b₂]
      ↔
    (0xC2 ≤ b₁.toNat ∧ b₁.toNat ≤ 0xDF) ∧ 0x80 ≤ b₂.toNat ∧ b₂.toNat ≤ 0xBF := by
  simp [IsSequence, sequenceTable, ByteRange.Contains, continuation]

/-- The first byte of a sequence of three restricts the second. -/
theorem isSequence_three_iff :
    IsSequence [b₁, b₂, b₃]
      ↔
    (0xE0 ≤ b₁.toNat ∧ b₁.toNat ≤ 0xEF) ∧
      (0x80 ≤ b₂.toNat ∧ b₂.toNat ≤ 0xBF) ∧
      (0x80 ≤ b₃.toNat ∧ b₃.toNat ≤ 0xBF) ∧
      (b₁.toNat = 0xE0 → 0xA0 ≤ b₂.toNat) ∧
      (b₁.toNat = 0xED → b₂.toNat ≤ 0x9F) := by
  simp only [IsSequence, sequenceTable, ByteRange.Contains, continuation, List.mem_cons,
    List.not_mem_nil, or_false, exists_eq_or_imp, exists_eq_left, List.forall₂_cons,
    List.forall₂_nil_left_iff, List.forall₂_nil_right_iff, reduceCtorEq, and_false, false_or,
    or_false, and_true]
  omega

/-- The first byte of a sequence of four restricts the second. -/
theorem isSequence_four_iff :
    IsSequence [b₁, b₂, b₃, b₄]
      ↔
    (0xF0 ≤ b₁.toNat ∧ b₁.toNat ≤ 0xF4) ∧
      (0x80 ≤ b₂.toNat ∧ b₂.toNat ≤ 0xBF) ∧
      (0x80 ≤ b₃.toNat ∧ b₃.toNat ≤ 0xBF) ∧
      (0x80 ≤ b₄.toNat ∧ b₄.toNat ≤ 0xBF) ∧
      (b₁.toNat = 0xF0 → 0x90 ≤ b₂.toNat) ∧
      (b₁.toNat = 0xF4 → b₂.toNat ≤ 0x8F) := by
  simp only [IsSequence, sequenceTable, ByteRange.Contains, continuation, List.mem_cons,
    List.not_mem_nil, or_false, exists_eq_or_imp, exists_eq_left, List.forall₂_cons,
    List.forall₂_nil_left_iff, List.forall₂_nil_right_iff, reduceCtorEq, and_false, false_or,
    or_false, and_true]
  omega

theorem IsSequence.length_le_four
    {bytes : List UInt8}
    (h : IsSequence bytes) :
    0 < bytes.length ∧ bytes.length ≤ 4 := by
  obtain ⟨row, hrow, hbytes⟩ := h
  have hlengths : ∀ row ∈ sequenceTable, 0 < row.length ∧ row.length ≤ 4 := by
    decide
  exact hbytes.length_eq ▸ hlengths row hrow

/-- A byte below 80 hexadecimal is a sequence of its own and stands in no other. -/
theorem IsSequence.eq_singleton
    {bytes : List UInt8}
    {byte : UInt8}
    (h : IsSequence bytes)
    (hmem : byte ∈ bytes)
    (hascii : byte.toNat ≤ 0x7F) :
    bytes = [byte] := by
  obtain ⟨row, hrow, hbytes⟩ := h
  have hrows : ∀ row ∈ sequenceTable, row.length = 1 ∨ ∀ r ∈ row, 0x80 ≤ r.first := by
    decide
  rcases hrows row hrow with hone | hlarge
  · obtain ⟨other, rfl⟩ := List.length_eq_one_iff.mp (hbytes.length_eq ▸ hone)
    rw [List.mem_singleton.mp hmem]
  · obtain ⟨i, hi, rfl⟩ := List.getElem_of_mem hmem
    have hir : i < row.length := hbytes.length_eq ▸ hi
    have hcontains : row[i].Contains bytes[i] := hbytes.get hir hi
    have hfirst := hlarge row[i] (List.getElem_mem hir)
    have hle := hcontains.1
    omega

/-- The bytes of a character are a sequence of the table. -/
theorem isSequence_utf8EncodeChar
    (c : Char) :
    IsSequence (String.utf8EncodeChar c) := by
  have hvalid : c.val.toNat < 0xD800 ∨ (0xDFFF < c.val.toNat ∧ c.val.toNat < 0x110000) := c.valid
  simp only [String.utf8EncodeChar]
  generalize c.val.toNat = v at hvalid ⊢
  split
  · rw [isSequence_one_iff, UInt8.toNat_ofNat']
    omega
  · split
    · simp only [isSequence_two_iff, UInt8.toNat_ofNat']
      omega
    · split
      · simp only [isSequence_three_iff, UInt8.toNat_ofNat']
        omega
      · simp only [isSequence_four_iff, UInt8.toNat_ofNat']
        omega

/-- A number that is no surrogate and not too large is the number of a character. -/
theorem exists_toNat_eq
    {v : Nat}
    (h : v.isValidChar) :
    ∃ c : Char, c.val.toNat = v :=
  ⟨Char.ofNatAux v h, rfl⟩

theorem ofNat_eq_of_eq_toNat
    (byte : UInt8)
    {n : Nat}
    (h : n = byte.toNat) :
    UInt8.ofNat n = byte := by
  rw [h, UInt8.ofNat_toNat]

/-- A sequence of the table are the bytes of a character. -/
theorem exists_utf8EncodeChar_eq
    {bytes : List UInt8}
    (h : IsSequence bytes) :
    ∃ c, String.utf8EncodeChar c = bytes := by
  have hlength := h.length_le_four
  match bytes, h, hlength with
  | [b₁], h, _ =>
      rw [isSequence_one_iff] at h
      obtain ⟨c, hc⟩ := exists_toNat_eq (v := b₁.toNat) (by unfold Nat.isValidChar; omega)
      refine ⟨c, ?_⟩
      simp only [String.utf8EncodeChar, hc]
      rw [if_pos (by omega), ofNat_eq_of_eq_toNat b₁ rfl]
  | [b₁, b₂], h, _ =>
      rw [isSequence_two_iff] at h
      obtain ⟨c, hc⟩ := exists_toNat_eq (v := (b₁.toNat - 0xC0) * 0x40 + (b₂.toNat - 0x80))
        (by unfold Nat.isValidChar; omega)
      refine ⟨c, ?_⟩
      simp only [String.utf8EncodeChar, hc]
      rw [if_neg (by omega), if_pos (by omega), ofNat_eq_of_eq_toNat b₁ (by omega),
        ofNat_eq_of_eq_toNat b₂ (by omega)]
  | [b₁, b₂, b₃], h, _ =>
      rw [isSequence_three_iff] at h
      obtain ⟨c, hc⟩ := exists_toNat_eq
        (v := (b₁.toNat - 0xE0) * 0x1000 + (b₂.toNat - 0x80) * 0x40 + (b₃.toNat - 0x80))
        (by unfold Nat.isValidChar; omega)
      refine ⟨c, ?_⟩
      simp only [String.utf8EncodeChar, hc]
      rw [if_neg (by omega), if_neg (by omega), if_pos (by omega),
        ofNat_eq_of_eq_toNat b₁ (by omega), ofNat_eq_of_eq_toNat b₂ (by omega),
        ofNat_eq_of_eq_toNat b₃ (by omega)]
  | [b₁, b₂, b₃, b₄], h, _ =>
      rw [isSequence_four_iff] at h
      obtain ⟨c, hc⟩ := exists_toNat_eq
        (v := (b₁.toNat - 0xF0) * 0x40000 + (b₂.toNat - 0x80) * 0x1000
          + (b₃.toNat - 0x80) * 0x40 + (b₄.toNat - 0x80))
        (by unfold Nat.isValidChar; omega)
      refine ⟨c, ?_⟩
      simp only [String.utf8EncodeChar, hc]
      rw [if_neg (by omega), if_neg (by omega), if_neg (by omega),
        ofNat_eq_of_eq_toNat b₁ (by omega), ofNat_eq_of_eq_toNat b₂ (by omega),
        ofNat_eq_of_eq_toNat b₃ (by omega), ofNat_eq_of_eq_toNat b₄ (by omega)]
  | [], _, hlength | _ :: _ :: _ :: _ :: _ :: _, _, hlength =>
      simp only [List.length_cons, List.length_nil] at hlength
      omega

theorem exists_utf8EncodeChar_eq_iff
    {bytes : List UInt8} :
    (∃ c, String.utf8EncodeChar c = bytes) ↔ IsSequence bytes := by
  constructor
  · rintro ⟨c, rfl⟩
    exact isSequence_utf8EncodeChar c
  · exact exists_utf8EncodeChar_eq

end Sequences

section Texts

variable {bytes : List UInt8}

/-- The well-formed bytes are the bytes of texts. -/
theorem isWellFormed_iff :
    IsWellFormed bytes ↔ ∃ text, encode text = bytes := by
  constructor
  · intro h
    induction h with
    | nil => exact ⟨[], rfl⟩
    | cons hsequence _ ih =>
        obtain ⟨c, rfl⟩ := exists_utf8EncodeChar_eq_iff.mpr hsequence
        obtain ⟨text, rfl⟩ := ih
        exact ⟨c :: text, encode_cons c text⟩
  · rintro ⟨text, rfl⟩
    induction text with
    | nil => exact .nil
    | cons c text ih =>
        rw [encode_cons]
        exact .cons (isSequence_utf8EncodeChar c) ih

/-- Bytes are well formed if none is left over after reading. -/
theorem isWellFormed_iff_rest :
    IsWellFormed bytes ↔ (decode bytes).rest = [] := by
  rw [isWellFormed_iff]
  constructor
  · rintro ⟨text, rfl⟩
    rw [decode_encode]
  · intro hrest
    have hbytes := encode_decode bytes
    rw [hrest, List.append_nil] at hbytes
    exact ⟨_, hbytes⟩

instance : DecidablePred IsWellFormed :=
  fun _ => decidable_of_iff' _ isWellFormed_iff_rest

/-- In the bytes of a text, the byte of a character that has one byte stands for this character
wherever it occurs. -/
theorem count_encode
    {d : Char}
    {byte : UInt8}
    (hd : String.utf8EncodeChar d = [byte])
    (text : List Char) :
    (encode text).count byte = text.count d := by
  have hascii : byte.toNat ≤ 0x7F := isSequence_one_iff.mp (hd ▸ isSequence_utf8EncodeChar d)
  induction text with
  | nil => rfl
  | cons c text ih =>
      rw [encode_cons, List.count_append, ih, List.count_cons, Nat.add_comm]
      congr 1
      by_cases hc : c = d
      · simp [hc, hd]
      · have hnot : byte ∉ String.utf8EncodeChar c := by
          intro hmem
          have hsingle := (isSequence_utf8EncodeChar c).eq_singleton hmem hascii
          have hsame : encode [c] = encode [d] := by
            rw [encode_cons, encode_cons, hsingle, hd]
          exact hc (List.singleton_inj.mp (encode_injective hsame))
        simp [hc, List.count_eq_zero.mpr hnot]

/-- Reading stops behind the longest well-formed beginning. -/
theorem isLongestWellFormed_decode
    (bytes : List UInt8) :
    IsLongestWellFormed bytes (bytes.length - (decode bytes).rest.length) := by
  have hbytes := encode_decode bytes
  have hlength := congrArg List.length hbytes
  rw [List.length_append] at hlength
  have htake : bytes.take (bytes.length - (decode bytes).rest.length) = encode (decode bytes).text := by
    have hprefix : encode (decode bytes).text <+: bytes := ⟨(decode bytes).rest, hbytes⟩
    rw [← hlength, Nat.add_sub_cancel]
    exact (List.prefix_iff_eq_take.mp hprefix).symm
  refine
    { le := Nat.sub_le _ _
      isWellFormed := isWellFormed_iff.mpr ⟨(decode bytes).text, htake.symm⟩
      longest := ?_ }
  intro n hn hwell
  obtain ⟨text, htext⟩ := isWellFormed_iff.mp hwell
  have hrest : encode text ++ bytes.drop n = bytes := by
    rw [htext, List.take_append_drop]
  have hle := length_rest_le hrest
  rw [List.length_drop] at hle
  omega

theorem IsLongestWellFormed.unique
    {m n : Nat}
    (hm : IsLongestWellFormed bytes m)
    (hn : IsLongestWellFormed bytes n) :
    m = n :=
  Nat.le_antisymm (hn.longest m hm.le hm.isWellFormed) (hm.longest n hn.le hn.isWellFormed)

end Texts

end Utf8
end Text
end Determinization
