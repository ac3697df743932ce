import Determinization.Proofs.Reading
import Determinization.Proofs.Text.ByteSequence

/-!
# Reading bytes

A file is decoded before anything else is looked at.  If its bytes are well formed, it is read as
the lines of its text.  Otherwise the byte behind the longest well-formed beginning is reported,
whatever the lines before it say.

**Results.** `readBytes_spec`: every sequence of bytes is read in one of these two ways.
-/

namespace Determinization
namespace Description

/-- The bytes are those of this text and of no other, and reading them is reading its lines. -/
structure ReadsAs
    (bytes : List UInt8)
    (text : List Char) :
    Prop where
  encode_eq : Text.Utf8.encode text = bytes
  unique : ∀ other, Text.Utf8.encode other = bytes → other = text
  isWellFormed : Text.Utf8.IsWellFormed bytes
  readBytes_eq : readBytes bytes = read (linesOf text)

/-- The bytes are those of no text, the longest well-formed beginning has the given length, and the
byte behind it is reported with the number of its line. -/
structure RefusesByte
    (bytes : List UInt8)
    (length : Nat)
    (byte : UInt8) :
    Prop where
  encode_ne : ∀ text, Text.Utf8.encode text ≠ bytes
  isLongest : Text.Utf8.IsLongestWellFormed bytes length
  getElem?_eq : bytes[length]? = some byte
  refuses :
    ∃ e,
      readBytes bytes = .error e ∧
      e.line = 1 + (bytes.take length).count 0x0A ∧
      e.fault = .illFormedByte byte ∧
      e.message
        =
      "строка " ++ Text.numeral e.line ++ ": "
        ++ ("байт 0x"
          ++ String.ofList [Nat.digitChar (byte.toNat / 16), Nat.digitChar (byte.toNat % 16)]
          ++ " не в кодировке utf-8")

/-- A byte has two hexadecimal digits. -/
theorem byteText_eq
    (byte : UInt8) :
    byteText byte
      =
    String.ofList [Nat.digitChar (byte.toNat / 16), Nat.digitChar (byte.toNat % 16)] := by
  have hbyte := byte.toNat_lt
  have hhigh : byte.toNat / 16 % 16 = byte.toNat / 16 := Nat.mod_eq_of_lt (by omega)
  simp only [byteText, Text.hexText, hhigh, List.nil_append, List.singleton_append]

theorem FormatError.message_of_illFormedByte
    {e : FormatError}
    {byte : UInt8}
    (h : e.fault = .illFormedByte byte) :
    e.message
      =
    "строка " ++ Text.numeral e.line ++ ": "
      ++ ("байт 0x" ++ byteText byte ++ " не в кодировке utf-8") := by
  cases e
  cases h
  rfl

/-- Reading the bytes of a text is reading the text. -/
theorem readBytes_encode
    (text : List Char) :
    readBytes (Text.Utf8.encode text) = readText text := by
  rw [readBytes, contentsOfBytes, Text.Utf8.decode_encode]
  rfl

theorem readsAs_encode
    (text : List Char) :
    ReadsAs (Text.Utf8.encode text) text where
  encode_eq := rfl
  unique := fun _ hother => Text.Utf8.encode_injective hother
  isWellFormed := Text.Utf8.isWellFormed_iff.mpr ⟨text, rfl⟩
  readBytes_eq := readBytes_encode text

/-- What is left over after reading begins with the byte that is reported. -/
theorem refusesByte_of_rest
    {bytes rest : List UInt8}
    {byte : UInt8}
    (h : (Text.Utf8.decode bytes).rest = byte :: rest) :
    RefusesByte bytes (bytes.length - (Text.Utf8.decode bytes).rest.length) byte := by
  have hsuffix : (Text.Utf8.decode bytes).rest <:+ bytes := ⟨_, Text.Utf8.encode_decode bytes⟩
  refine
    { encode_ne := ?_
      isLongest := Text.Utf8.isLongestWellFormed_decode bytes
      getElem?_eq := ?_
      refuses := ?_ }
  · rintro text rfl
    rw [Text.Utf8.decode_encode] at h
    cases h
  · rw [← List.head?_drop, ← List.suffix_iff_eq_drop.mp hsuffix, h, List.head?_cons]
  · refine ⟨⟨lineOfByte bytes (bytes.length - (Text.Utf8.decode bytes).rest.length),
      .illFormedByte byte⟩, ?_, Nat.add_comm _ _, rfl, ?_⟩
    · simp only [readBytes, contentsOfBytes, h, Except.map]
    · rw [FormatError.message_of_illFormedByte rfl, byteText_eq]

/--
Bytes that are well formed are read as the one text whose bytes they are; of all others, the first
byte behind the longest well-formed beginning is reported.
-/
theorem readBytes_spec
    (bytes : List UInt8) :
    (∃ text, ReadsAs bytes text) ∨ ∃ length byte, RefusesByte bytes length byte := by
  have hbytes := Text.Utf8.encode_decode bytes
  cases hrest : (Text.Utf8.decode bytes).rest with
  | nil =>
      rw [hrest, List.append_nil] at hbytes
      exact Or.inl ⟨_, hbytes ▸ readsAs_encode (Text.Utf8.decode bytes).text⟩
  | cons byte rest => exact Or.inr ⟨_, byte, refusesByte_of_rest hrest⟩

example :
    readBytes [0x33, 0x0A, 0x61, 0xC3, 0xA9, 0x0A, 0xED, 0xA0, 0x80]
      =
    .error ⟨3, .illFormedByte 0xED⟩ := by
  decide +kernel

end Description
end Determinization
