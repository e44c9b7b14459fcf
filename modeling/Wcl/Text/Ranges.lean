/-!
# Ranges of code points

A character class is a list of ranges of code points in ascending order, so a
look-up can stop at the first range that begins above the code point.
-/

namespace Wcl.Text

/-- A class of characters: ranges of code points, ends included, ascending. -/
abbrev Ranges := List (Nat × Nat)

/-- Whether a code point lies in one of the ranges. -/
def Ranges.has : Ranges → Nat → Bool
  | [], _ => false
  | (first, last) :: rest, n => first ≤ n && (n ≤ last || Ranges.has rest n)

end Wcl.Text
