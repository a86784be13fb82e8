/-!
# Ranges of code points

A set of characters written down as ranges of code points.
-/

namespace VertexEngine.Text

/-- Ranges of code points.  Both ends belong to a range. -/
abbrev Ranges := List (Nat × Nat)

/-- Whether the code point of a character lies in one of the ranges. -/
def inRanges (ranges : Ranges) (c : Char) : Bool :=
  ranges.any fun r => r.1 ≤ c.toNat && c.toNat ≤ r.2

end VertexEngine.Text
