import Determinization.Text.Utf8

/-!
# Reading UTF-8 back

The bytes of a character are the only well-formed sequence with which they begin, whatever bytes
follow.  A text is therefore read back from its bytes, character by character.

**Results.** `decode_encode`: decoding the bytes of a text yields the text, with no byte left.
-/

namespace Determinization
namespace Text
namespace Utf8

theorem encode_cons
    (c : Char)
    (text : List Char) :
    encode (c :: text) = String.utf8EncodeChar c ++ encode text :=
  rfl

/-- The first four bytes are enough to read the first character. -/
theorem firstChar?_append
    (c : Char)
    (rest : List UInt8) :
    firstChar? (String.utf8EncodeChar c ++ rest) = some c := by
  have hsize : (String.utf8EncodeChar c).length ≤ 4 := by
    rw [String.length_utf8EncodeChar]
    exact Char.utf8Size_le_four c
  rw [firstChar?, List.take_append, List.take_of_length_le hsize, List.toByteArray_append,
    ByteArray.utf8DecodeChar?_utf8EncodeChar_append]

/-- As many bytes are consumed as the first character has. -/
theorem drop_utf8EncodeChar_append
    (c : Char)
    (rest : List UInt8) :
    (String.utf8EncodeChar c ++ rest).drop c.utf8Size = rest := by
  rw [← String.length_utf8EncodeChar, List.drop_left]

/-- The first character is read and its bytes are consumed. -/
theorem decode_append
    (c : Char)
    (rest : List UInt8) :
    decode (String.utf8EncodeChar c ++ rest) = ⟨c :: (decode rest).text, (decode rest).rest⟩ := by
  rw [decode]
  split
  · next hnone =>
      rw [firstChar?_append] at hnone
      cases hnone
  · next d hd =>
      rw [firstChar?_append, Option.some.injEq] at hd
      subst hd
      simp only [drop_utf8EncodeChar_append]

/-- A text is read as far as it goes, and reading continues behind it. -/
theorem decode_encode_append
    (text : List Char)
    (rest : List UInt8) :
    decode (encode text ++ rest) = ⟨text ++ (decode rest).text, (decode rest).rest⟩ := by
  induction text with
  | nil => rfl
  | cons c text ih => rw [encode_cons, List.append_assoc, decode_append, ih, List.cons_append]

theorem decode_nil :
    decode [] = ⟨[], []⟩ := by
  rw [decode]
  rfl

theorem decode_encode
    (text : List Char) :
    decode (encode text) = ⟨text, []⟩ := by
  have h := decode_encode_append text []
  rwa [List.append_nil, decode_nil, List.append_nil] at h

theorem encode_injective
    {text other : List Char}
    (h : encode text = encode other) :
    text = other := by
  have hdecoded := congrArg (fun bytes => (decode bytes).text) h
  simpa only [decode_encode] using hdecoded

/-- The first character is read off its own bytes. -/
theorem exists_append_of_firstChar?
    {bytes : List UInt8}
    {c : Char}
    (h : firstChar? bytes = some c) :
    ∃ rest, bytes = String.utf8EncodeChar c ++ rest := by
  obtain ⟨more, hmore⟩ := ByteArray.exists_of_utf8DecodeChar?_eq_some h
  have hlist : more.data.toList.toByteArray = more := by
    rw [ByteArray.ext_iff, List.data_toByteArray, Array.toArray_toList]
  have hfour : bytes.take 4 = String.utf8EncodeChar c ++ more.data.toList := by
    rw [← List.toByteArray_inj, hmore, List.toByteArray_append, hlist]
  refine ⟨more.data.toList ++ bytes.drop 4, ?_⟩
  rw [← List.append_assoc, ← hfour, List.take_append_drop]

/-- What is read and what is left over make up the bytes. -/
theorem encode_decode
    (bytes : List UInt8) :
    encode (decode bytes).text ++ (decode bytes).rest = bytes := by
  fun_induction decode bytes with
  | case1 bytes => rfl
  | case2 bytes c hc _ tail ih =>
      obtain ⟨rest, rfl⟩ := exists_append_of_firstChar? hc
      rw [drop_utf8EncodeChar_append] at ih
      have htail : tail = decode rest := congrArg decode (drop_utf8EncodeChar_append c rest)
      rw [htail, encode_cons, List.append_assoc, ih]

/-- No text of which the bytes begin with goes further than what is read. -/
theorem length_rest_le
    {bytes rest : List UInt8}
    {text : List Char}
    (h : encode text ++ rest = bytes) :
    (decode bytes).rest.length ≤ rest.length := by
  subst h
  have hbytes := congrArg List.length (encode_decode rest)
  rw [List.length_append] at hbytes
  rw [decode_encode_append]
  simp only
  omega

end Utf8
end Text
end Determinization
