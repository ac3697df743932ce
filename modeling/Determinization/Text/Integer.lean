import Determinization.Text.Digit

/-!
# Integers as text

**Writing.** `numeral` writes an integer in decimal, with a leading `-` for a negative one.  It is
total: the limit of `maxDigits` digits on the writing of an integer is left out.

**Reading.** An integer token is an optional sign followed by decimal digits of any scripts,
where single underscores may stand between two digits.  Leading zeros are allowed.  A token
with more than `maxDigits` digits is refused; neither the sign nor the underscores count.
-/

namespace Determinization
namespace Text

/-- The largest number of digits that a token may have. -/
def maxDigits : Nat := 4300

/-- The decimal digits of a natural number. -/
def naturalNumeral (n : Nat) : List Char :=
  Nat.toDigits 10 n

/-- The decimal text of an integer. -/
def numeral : Int → String
  | .ofNat n => String.ofList (naturalNumeral n)
  | .negSucc n => String.ofList ('-' :: naturalNumeral (n + 1))

/-- The values of the digits of a digit block: digits, with single underscores between them. -/
def digitBlock? : List Char → Option (List Nat)
  | [] => none
  | [c] => (digitValue? c).map fun d => [d]
  | c :: '_' :: rest => do
      let d ← digitValue? c
      let ds ← digitBlock? rest
      return d :: ds
  | c :: rest => do
      let d ← digitValue? c
      let ds ← digitBlock? rest
      return d :: ds

/-- The number that a list of digit values denotes, most significant digit first. -/
def positional (digits : List Nat) : Nat :=
  digits.foldl (fun n d => 10 * n + d) 0

/-- The value of an unsigned digit block within the limit on its length. -/
def magnitude? (block : List Char) : Option Nat := do
  let digits ← digitBlock? block
  if digits.length ≤ maxDigits then
    return positional digits
  else
    none

/-- The value of an integer token. -/
def integer? : List Char → Option Int
  | '+' :: block => (magnitude? block).map fun n => (n : Int)
  | '-' :: block => (magnitude? block).map fun n => -(n : Int)
  | block => (magnitude? block).map fun n => (n : Int)

end Text
end Determinization
