namespace Eventually

namespace Text

-- A set of characters as ranges of code points, each with its first and its last one.
abbrev CodeRanges := List (Nat × Nat)

def CodeRanges.contains (ranges : CodeRanges) (c : Char) : Bool :=
  ranges.any fun range => range.1 ≤ c.toNat && c.toNat ≤ range.2

end Text

end Eventually
