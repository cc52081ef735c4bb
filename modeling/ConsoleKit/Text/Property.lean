/-!
# Character properties as tables

A property of characters is given by the ranges of code points that have it, in ascending order. The tables
themselves stand in one module for each property.
-/

namespace ConsoleKit.Text

/-- The code points that have a property: ranges with both ends included, in ascending order. -/
abbrev PropertyTable := List (Nat × Nat)

/-- Whether a code point lies in one of the ranges. The search ends at the first range that begins above it. -/
def PropertyTable.contains : PropertyTable → Nat → Bool
  | [], _ => false
  | (first, last) :: table, point => first ≤ point && (point ≤ last || contains table point)

end ConsoleKit.Text
