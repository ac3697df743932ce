/-!
# Hexadecimal text

A number in hexadecimal with a fixed number of lower-case digits.
-/

namespace Determinization
namespace Text

/-- The last `width` hexadecimal digits of a number, the most significant first. -/
def hexText : Nat → Nat → List Char
  | 0, _ => []
  | width + 1, n => hexText width (n / 16) ++ [Nat.digitChar (n % 16)]

@[simp] theorem length_hexText
    (width n : Nat) :
    (hexText width n).length = width := by
  induction width generalizing n with
  | zero => rfl
  | succ width ih => simp [hexText, ih]

end Text
end Determinization
