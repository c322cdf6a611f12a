/-!
# Binary64 numbers

A number with a fraction or an exponent is held to binary64 precision. Its magnitude is given by
its rank among all magnitudes, counted upwards from zero: neighbouring ranks are neighbouring
numbers, the last rank is infinity, and so every rank is a different number. All arithmetic on
ranks is exact arithmetic on natural numbers.
-/

namespace Bindery

/-- The rank of infinity: 2047 exponents, with 2⁵² magnitudes each, come before it. -/
def Binary64.topRank : Nat := 2047 * Nat.pow 2 52

/-- A binary64 number that is not a NaN. -/
structure Binary64 where
  /-- Whether the sign is negative; zero has both signs. -/
  negative : Bool
  /-- How many magnitudes are smaller. -/
  rank : Nat
  /-- Nothing lies beyond infinity. -/
  rank_le : rank ≤ Binary64.topRank
  deriving DecidableEq

namespace Binary64

/-- The number of the given rank, infinity if there is none. -/
def ofRank (negative : Bool) (rank : Nat) : Binary64 :=
  ⟨negative, min rank topRank, Nat.min_le_right _ _⟩

/-- Whether the number is infinite. -/
def isInfinite (x : Binary64) : Bool := x.rank == topRank

/-- Whether the number is zero, of either sign. -/
def isZero (x : Binary64) : Bool := x.rank == 0

/-- The mantissa `m` and exponent `q` of the magnitude `m * 2 ^ q` of a rank. The first binade
is subnormal and shares its exponent with the second. -/
def scale (rank : Nat) : Nat × Int :=
  let binade : Nat := rank / Nat.pow 2 52
  if binade = 0 then (rank, -1074)
  else (Nat.pow 2 52 + rank % Nat.pow 2 52, (binade : Int) - 1075)

/-- The magnitude of a rank as a quotient of natural numbers. -/
def ratio (rank : Nat) : Nat × Nat :=
  let (m, q) := scale rank
  if 0 ≤ q then (m * Nat.pow 2 q.toNat, 1) else (m, Nat.pow 2 (-q).toNat)

/-- The quotient rounded to the nearest natural number, a half to the even neighbour. -/
def roundHalfEven (num den : Nat) : Nat :=
  let quotient := num / den
  let double := 2 * (num % den)
  if double < den then quotient
  else if den < double then quotient + 1
  else quotient + quotient % 2

/-- `num / den` divided by `2 ^ q`, again as a quotient. -/
def rescale (num den : Nat) (q : Int) : Nat × Nat :=
  if 0 ≤ q then (num, den * Nat.pow 2 q.toNat) else (num * Nat.pow 2 (-q).toNat, den)

/-- The exponent at which a positive quotient has a mantissa of 53 bits, or the least exponent. -/
def exponentOf (num den : Nat) : Int :=
  let guess : Int := (num.log2 : Int) - (den.log2 : Int) - 52
  let (n, d) := rescale num den guess
  max (-1074) (if n / d < Nat.pow 2 52 then guess - 1 else guess)

/-- The rank nearest to a quotient, a half going to the even neighbour. -/
def nearestRank (num den : Nat) : Nat :=
  if num = 0 then 0
  else
    let q := exponentOf num den
    let (n, d) := rescale num den q
    min (roundHalfEven n d + (q + 1074).toNat * Nat.pow 2 52) topRank

/-- How many decimal digits a number has. -/
def digitCount (n : Nat) : Nat := (Nat.toDigits 10 n).length

/-- The rank nearest to `digits * 10 ^ exponent`. Decimals beyond 10³¹⁰ are infinite and decimals
below 10⁻³³⁰ are zero at this precision, whatever their digits. -/
def rankOfDecimal (digits : Nat) (exponent : Int) : Nat :=
  let top := (digitCount digits : Int) + exponent
  if digits = 0 ∨ top < -330 then 0
  else if 310 < top then topRank
  else if 0 ≤ exponent then nearestRank (digits * Nat.pow 10 exponent.toNat) 1
  else nearestRank digits (Nat.pow 10 (-exponent).toNat)

/-- The binary64 number nearest to a decimal. -/
def ofDecimal (negative : Bool) (digits : Nat) (exponent : Int) : Binary64 :=
  ofRank negative (rankOfDecimal digits exponent)

/-- Exact comparison with a whole number. -/
def compareInt (x : Binary64) (n : Int) : Ordering :=
  let (num, den) := ratio x.rank
  if x.isInfinite then (if x.negative then .lt else .gt)
  else compare (if x.negative then -(num : Int) else num) (n * den)

/-- Comparison by value; the two zeros are equal. -/
def compareValue (x y : Binary64) : Ordering :=
  let signed (z : Binary64) : Int := if z.negative then -(z.rank : Int) else z.rank
  compare (signed x) (signed y)

example : ofDecimal false 1 0 = ofRank false (1023 * 2 ^ 52) := by decide +kernel

example : (ofDecimal false 1 400).isInfinite = true := by decide +kernel

end Binary64

end Bindery
