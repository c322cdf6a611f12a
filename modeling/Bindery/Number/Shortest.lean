import Bindery.Number.Binary64

/-!
# Shortest decimal texts

A binary64 number is written with the fewest digits that read back to it, and of the decimals with
that many digits the nearest. The decimal is searched for on ever finer grids; on each grid only
the two neighbours of the number can read back, since reading back is decided by distance.
-/

namespace Bindery.Binary64

/-- A decimal `digits * 10 ^ exponent`. -/
structure Decimal where
  /-- The digits, read as a whole number. -/
  digits : Nat
  /-- The power of ten of the last digit. -/
  exponent : Int
  deriving DecidableEq, Repr

/-- How many digits a positive quotient has before the point; not positive below one tenth. -/
def pointOf (num den : Nat) : Int :=
  if den ≤ num then digitCount (num / den)
  else
    match (List.range 400).find? fun k => den ≤ num * Nat.pow 10 (k + 1) with
    | some k => -(k : Int)
    | none => -400

/-- `num / den` times `10 ^ shift`, again as a quotient. -/
def gridRatio (num den : Nat) (shift : Int) : Nat × Nat :=
  if 0 ≤ shift then (num * Nat.pow 10 shift.toNat, den)
  else (num, den * Nat.pow 10 (-shift).toNat)

/-- The neighbours of a quotient on the grid of `count` significant digits that read back to the
rank, the nearer one if both do. -/
def onGrid? (rank num den : Nat) (point : Int) (count : Nat) : Option Decimal :=
  let shift := (count : Int) - point
  let (n, d) := gridRatio num den shift
  let low := n / d
  let double := 2 * (n % d)
  let lowReads := rankOfDecimal low (-shift) == rank
  let highReads := rankOfDecimal (low + 1) (-shift) == rank
  if lowReads && highReads then
    some ⟨if double < d || (double == d && low % 2 == 0) then low else low + 1, -shift⟩
  else if lowReads then some ⟨low, -shift⟩
  else if highReads then some ⟨low + 1, -shift⟩
  else none

/-- The shortest decimal of a positive rank. No binary64 number has more than 767 significant
digits, so the search ends at its own digits at the latest. -/
def shortest (rank : Nat) : Decimal :=
  let (num, den) := ratio rank
  let point := pointOf num den
  match (List.range 767).findSome? fun k => onGrid? rank num den point (k + 1) with
  | some decimal => decimal
  | none => ⟨0, 0⟩

/-- The digits of a number without trailing zeros. -/
def significant (n : Nat) : List Char :=
  ((Nat.toDigits 10 n).reverse.dropWhile (· == '0')).reverse

/-- `n` zeros. -/
def zeros (n : Nat) : List Char := List.replicate n '0'

/-- An exponent with its sign and at least two digits. -/
def exponentText (e : Int) : List Char :=
  let digits := Nat.toDigits 10 e.natAbs
  (if e < 0 then '-' else '+') :: (zeros (2 - digits.length) ++ digits)

/-- Writes significant digits with the point behind the first `point` of them. Positional notation
reaches from four places behind the point to sixteen before it and keeps one place behind it. -/
def writeDigits (digits : List Char) (point : Int) : List Char :=
  if -4 < point ∧ point ≤ 16 then
    if point ≤ 0 then '0' :: '.' :: (zeros (-point).toNat ++ digits)
    else
      let whole := point.toNat
      if digits.length ≤ whole then digits ++ zeros (whole - digits.length) ++ ['.', '0']
      else digits.take whole ++ '.' :: digits.drop whole
  else
    let mantissa := match digits with
      | [] => []
      | [d] => [d]
      | d :: rest => d :: '.' :: rest
    mantissa ++ 'e' :: exponentText (point - 1)

/-- The text of a magnitude that is not infinite. -/
def magnitudeText (rank : Nat) : List Char :=
  if rank = 0 then ['0', '.', '0']
  else
    let decimal := shortest rank
    writeDigits (significant decimal.digits)
      ((digitCount decimal.digits : Int) + decimal.exponent)

/-- The text of a number, with the given word for infinity. -/
def text (infinity : String) (x : Binary64) : String :=
  let magnitude := if x.isInfinite then infinity.toList else magnitudeText x.rank
  String.ofList (if x.negative then '-' :: magnitude else magnitude)

example : (ofDecimal false 1 0).text "inf" = "1.0" := by decide +kernel

example : (ofDecimal true 15 (-6)).text "inf" = "-1.5e-05" := by decide +kernel

example : (ofDecimal false 1 16).text "inf" = "1e+16" := by decide +kernel

example : (ofDecimal false 30000000000000004 (-17)).text "inf" = "0.30000000000000004" := by
  decide +kernel

end Bindery.Binary64
