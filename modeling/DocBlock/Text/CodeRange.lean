/-! Sets of characters given as ascending ranges of code points. -/

namespace DocBlock

/-- First and last code point of a range. -/
abbrev CodeRange := Nat × Nat

def inRanges (rs : List CodeRange) (c : Char) : Bool :=
  rs.any fun r => r.1 ≤ c.toNat && c.toNat ≤ r.2

end DocBlock
