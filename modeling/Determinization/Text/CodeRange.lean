/-!
# Ranges of code points

Character classes of the text formats are finite unions of intervals of code points.
A class is written down as the list of its intervals, and `inRanges` decides it.
-/

namespace Determinization
namespace Text

/-- An interval of code points, both ends included. -/
structure CodeRange where
  first : Nat
  last : Nat
  deriving DecidableEq, Repr

def CodeRange.contains
    (r : CodeRange)
    (c : Char) :
    Bool :=
  decide (r.first ≤ c.toNat) && decide (c.toNat ≤ r.last)

/-- The code point lies in one of the intervals. -/
def inRanges
    (rs : List CodeRange)
    (c : Char) :
    Bool :=
  rs.any fun r => r.contains c

theorem inRanges_iff
    {rs : List CodeRange}
    {c : Char} :
    inRanges rs c = true
      ↔
    ∃ r ∈ rs, r.first ≤ c.toNat ∧ c.toNat ≤ r.last := by
  simp [inRanges, CodeRange.contains]

end Text
end Determinization
