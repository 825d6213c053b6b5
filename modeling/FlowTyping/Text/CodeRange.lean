/-!
# Ranges of code points

A property of characters, kept as the closed ranges of the code points that have it.
-/

namespace FlowTyping.Text

/-- The first and the last code point of each range. -/
abbrev CodeRanges := List (Nat × Nat)

namespace CodeRanges

/-- Whether the character lies in one of the ranges. -/
def covers (ranges : CodeRanges) (c : Char) : Bool :=
  ranges.any fun range => range.1 ≤ c.toNat && c.toNat ≤ range.2

end CodeRanges

end FlowTyping.Text
