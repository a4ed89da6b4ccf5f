/-! # Ranges of code points

A property of characters is given by the ranges of code points that have it: pairs of a first and a
last code point, in ascending order and without overlap.
-/

namespace JvmLisp.Text

/-- Membership in ascending ranges. The search ends at the first range that starts above `n`. -/
def covers : List (Nat × Nat) → Nat → Bool
  | [], _ => false
  | (first, last) :: ranges, n => first ≤ n && (n ≤ last || covers ranges n)

end JvmLisp.Text
