import Bindery.Number.Binary64

/-!
# Decimal numbers in writing

A number is written as a sign, a whole part, a fraction behind a point and an exponent behind a
letter. Which of these parts must be there, and in which form, is for each format to say.
-/

namespace Bindery

/-- The value of decimal digits. -/
def digitsValue (ds : List Char) : Nat := ds.foldl (fun n d => 10 * n + (d.toNat - 48)) 0

/-- A number by its parts as they are written. -/
structure Decimal where
  /-- The sign, if there is one. -/
  sign : Option Char
  /-- The digits of the whole part. -/
  whole : List Char
  /-- The digits behind the point, if there is one. -/
  fraction : Option (List Char)
  /-- The sign, if there is one, and the digits of the exponent, if there is one. -/
  exponent : Option (Option Char × List Char)
  deriving DecidableEq, Repr

namespace Decimal

/-- A sign and what follows it. -/
def signed (cs : List Char) : Option Char × List Char :=
  match cs with
  | '-' :: rest => (some '-', rest)
  | '+' :: rest => (some '+', rest)
  | rest => (none, rest)

/-- Reads the exponent that is all that remains. -/
def exponent? : List Char → Option (Option Char × List Char)
  | mark :: rest =>
    let (sign, digits) := signed rest
    if (mark = 'e' ∨ mark = 'E') ∧ digits ≠ [] ∧ digits.all Char.isDigit then some (sign, digits)
    else none
  | [] => none

/-- The fraction behind a point, if there is one, and what follows it. -/
def pointed (isDigit : Char → Bool) (cs : List Char) : Option (List Char) × List Char :=
  match cs with
  | '.' :: rest => (some (rest.takeWhile isDigit), rest.dropWhile isDigit)
  | rest => (none, rest)

/-- Reads a number, with other characters than digits in its whole part and fraction if a class
admits them. -/
def ofChars? (isDigit : Char → Bool) (cs : List Char) : Option Decimal :=
  let (sign, body) := signed cs
  let whole := body.takeWhile isDigit
  let (fraction, rest) := pointed isDigit (body.dropWhile isDigit)
  if rest = [] then some ⟨sign, whole, fraction, none⟩
  else (exponent? rest).map fun exponent => ⟨sign, whole, fraction, some exponent⟩

/-- Whether the number has neither a point nor an exponent. -/
def isWhole (x : Decimal) : Bool := x.fraction.isNone && x.exponent.isNone

/-- Whether there is a digit in front of the exponent. -/
def hasDigit (x : Decimal) : Bool := (x.whole ++ x.fraction.getD []).any Char.isDigit

/-- The number as a whole number, when it has neither a point nor an exponent. -/
def toInt (x : Decimal) : Int :=
  if x.sign = some '-' then -(digitsValue x.whole : Int) else digitsValue x.whole

/-- The number to binary64 precision. -/
def toFloat (x : Decimal) : Binary64 :=
  let digits (ds : List Char) : List Char := ds.filter Char.isDigit
  let fraction := digits (x.fraction.getD [])
  let exponent : Int := match x.exponent with
    | some (some '-', ds) => -(digitsValue ds : Int)
    | some (_, ds) => digitsValue ds
    | none => 0
  .ofDecimal (x.sign = some '-') (digitsValue (digits x.whole ++ fraction))
    (exponent - fraction.length)

example : (ofChars? Char.isDigit "-12.5e+3".toList).map toFloat =
    some (.ofDecimal true 125 2) := by decide

end Decimal

end Bindery
