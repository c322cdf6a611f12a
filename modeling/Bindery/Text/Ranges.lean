/-!
# Ranges of code points

A class of characters is given as ascending, disjoint ranges of code points, so membership stops
at the first range that begins beyond the character.
-/

namespace Bindery.Text

/-- Ranges of code points, both ends included, in ascending order. -/
abbrev Ranges := List (Nat × Nat)

/-- Whether a code point lies in one of the ranges. -/
def Ranges.coversCode : Ranges → Nat → Bool
  | [], _ => false
  | (low, high) :: rest, n => if n < low then false else n ≤ high || Ranges.coversCode rest n

/-- Whether a character lies in one of the ranges. -/
def Ranges.covers (ranges : Ranges) (c : Char) : Bool := ranges.coversCode c.toNat

end Bindery.Text
