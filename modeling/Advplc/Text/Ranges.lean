/-!
# Sets of code points given by ranges

A Unicode property is a set of code points, and the sets that matter here are unions of closed
ranges.  `Ranges` is such a union, written as its ranges in ascending order; the order is what lets
`Ranges.has` stop at the first range that begins above the number it looks for.
-/

set_option autoImplicit false

namespace Advplc

/-- Closed ranges of numbers, in ascending order and apart from each other. -/
abbrev Ranges := List (Nat × Nat)

/-- Whether `n` lies in one of the ranges. -/
def Ranges.has : Ranges → Nat → Bool
  | [], _ => false
  | (lo, hi) :: rest, n => if n < lo then false else n ≤ hi || Ranges.has rest n

end Advplc
