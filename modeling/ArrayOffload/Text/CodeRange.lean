/-!
# Ranges of characters

A property of characters as the closed ranges of codes that have it.
-/

namespace ArrayOffload.Text

/-- Closed ranges of codes. -/
abbrev CodeRanges := List (Nat × Nat)

namespace CodeRanges

/-- Whether a code lies in one of the ranges. -/
def covers (ranges : CodeRanges) (code : Nat) : Bool :=
  ranges.any fun range => range.1 ≤ code && code ≤ range.2

end CodeRanges

end ArrayOffload.Text
