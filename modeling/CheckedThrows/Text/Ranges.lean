/-!
# Sets of code points as ranges

Unicode properties are lists of closed ranges in increasing order.  The long ones
are written as runs: how many code points lack the property, how many have it, and
so on.
-/

namespace CheckedThrows

abbrev CodeRanges := List (Nat × Nat)

namespace CodeRanges

def contains (ranges : CodeRanges) (n : Nat) : Bool :=
  ranges.any fun r => r.1 ≤ n && n ≤ r.2

/-- The ranges of runs that are counted from `start` on. -/
def ofRuns (start : Nat) : List Nat → CodeRanges
  | skip :: size :: rest =>
    let first := start + skip
    (first, first + size - 1) :: ofRuns (first + size) rest
  | _ => []

end CodeRanges

end CheckedThrows
