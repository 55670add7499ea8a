/-
# Ranges of code points

A character class is given by a list of ranges, and a character belongs to the class when one
of the ranges covers its code point.
-/

namespace Highlighter

/-- The code points from `first` to `last`, both included. -/
structure CodeRange where
  first : Nat
  last : Nat
  deriving Repr, DecidableEq

/-- Whether the range holds the character's code point. -/
def CodeRange.covers (r : CodeRange) (c : Char) : Bool :=
  decide (r.first ≤ c.toNat) && decide (c.toNat ≤ r.last)

/-- Whether one of the ranges holds the character's code point. -/
def CodeRange.anyCovers (rs : List CodeRange) (c : Char) : Bool :=
  rs.any (·.covers c)

end Highlighter
