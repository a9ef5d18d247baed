/-!
# Sets of code points

A set of characters is kept as a sorted list of disjoint intervals of code points, both ends included.
-/

namespace MultiCaret

/-- The interval of a sorted list that holds the code point. -/
def rangeOf? : List (Nat × Nat) → Nat → Option (Nat × Nat)
  | [], _ => none
  | r :: rs, n => if n < r.1 then none else if n ≤ r.2 then some r else rangeOf? rs n

/-- Is the code point in one of the sorted intervals? -/
def inRanges (rs : List (Nat × Nat)) (n : Nat) : Bool :=
  (rangeOf? rs n).isSome

end MultiCaret
