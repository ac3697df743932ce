/-!
# UTF-8

`decode` reads bytes as UTF-8 as far as they are well formed.  It returns the characters read
and the bytes left over, which are empty exactly if the whole sequence is well formed;
otherwise they begin with the first byte of the first ill-formed sequence.
-/

namespace Determinization
namespace Text
namespace Utf8

/-- The character with which the bytes begin, if they begin with a well-formed sequence. -/
def firstChar? (bytes : List UInt8) : Option Char :=
  (bytes.take 4).toByteArray.utf8DecodeChar? 0

@[simp] theorem firstChar?_nil :
    firstChar? [] = none := by
  decide

/-- Reading one character leaves fewer bytes. -/
theorem length_drop_utf8Size_lt
    {bytes : List UInt8}
    {c : Char}
    (h : firstChar? bytes = some c) :
    (bytes.drop c.utf8Size).length < bytes.length := by
  have hne : bytes ≠ [] := by
    intro hnil
    simp [hnil] at h
  have hpos : 0 < bytes.length := List.length_pos_iff.mpr hne
  have hsize : 0 < c.utf8Size := Char.utf8Size_pos c
  simp only [List.length_drop]
  omega

/-- What reading yields: the characters, and the bytes from the first fault on. -/
structure Decoded where
  text : List Char
  rest : List UInt8
  deriving DecidableEq

/-- The characters of the longest well-formed beginning, and the bytes after it. -/
def decode (bytes : List UInt8) : Decoded :=
  match h : firstChar? bytes with
  | none => ⟨[], bytes⟩
  | some c =>
      have := length_drop_utf8Size_lt h
      let tail := decode (bytes.drop c.utf8Size)
      ⟨c :: tail.text, tail.rest⟩
termination_by bytes.length
decreasing_by exact this

def encode (text : List Char) : List UInt8 :=
  text.flatMap String.utf8EncodeChar

end Utf8
end Text
end Determinization
