import Bindery.Document.Cursor
import Bindery.Number.Decimal
import Bindery.Text.Blank
import Bindery.Text.Hex
import Bindery.Text.Numeral

/-!
# Numbers in a document

The value of a text that is said to be a number. Underscores mean nothing, and a sign comes first.
Whole numbers are written in base ten, two, sixteen or eight, told apart by how they begin, or with
colons in base sixty.
-/

namespace Bindery.Document

open Text

/-- The parts of a text between colons. -/
def colonParts : List Char → List (List Char)
  | [] => [[]]
  | c :: rest =>
    match colonParts rest with
    | part :: parts => if c = ':' then [] :: part :: parts else (c :: part) :: parts
    | [] => [[c]]

/-- The number of decimal digits that a whole number may have. -/
def mostDigits : Nat := 4300

/-- The value of a digit in a base: a decimal digit of any script, or a letter. -/
def digitIn? (base : Nat) (c : Char) : Option Nat :=
  ((digitValue? c).orElse fun _ => hexValue? c).filter (· < base)

/-- The mark that may stand in front of digits in a base. -/
def baseMark? : Nat → Option Char
  | 2 => some 'b'
  | 8 => some 'o'
  | 16 => some 'x'
  | _ => none

/-- Digits without the mark of their base. -/
def withoutMark (base : Nat) (cs : List Char) : List Char :=
  match cs with
  | '0' :: c :: rest => if baseMark? base = some c.toLower then rest else cs
  | cs => cs

/-- The number that a text writes in a base: between blanks, a sign and digits, of which there must
be some, and of decimal ones not too many. -/
def numberIn (base : Nat) (cs : List Char) : Except DocumentFault Int :=
  let (sign, body) := Decimal.signed (strip cs)
  let ds := withoutMark base body
  if base = 10 ∧ mostDigits < ds.length then .error .magnitude
  else
    match ds.mapM (digitIn? base) with
    | some (v :: values) =>
      let n := (v :: values).foldl (fun n d => base * n + d) 0
      .ok (if sign = some '-' then -(n : Int) else n)
    | _ => .error .magnitude

/-- The number of a text without underscores and without its first sign. -/
def unsignedNumber (cs : List Char) : Except DocumentFault Int :=
  match cs with
  | [] => .error .noNumber
  | ['0'] => .ok 0
  | '0' :: 'b' :: ds => numberIn 2 ds
  | '0' :: 'x' :: ds => numberIn 16 ds
  | '0' :: _ => numberIn 8 cs
  | cs => (colonParts cs).foldlM (fun n part => return 60 * n + (← numberIn 10 part)) 0

/-- The value of a text that is said to be a whole number. -/
def wholeNumber (cs : List Char) : Except DocumentFault Int := do
  let (sign, body) := Decimal.signed (cs.filter (· ≠ '_'))
  let n ← unsignedNumber body
  return if sign = some '-' then -n else n

/-- A text with the decimal digits of every script as the usual ones. -/
def usualDigits (cs : List Char) : List Char :=
  cs.map fun c => ((digitValue? c).map fun d => Char.ofNat (48 + d)).getD c

/-- The words for numbers that no digits write. -/
def endlessWords : List String := ["inf", "infinity", "nan"]

/-- The number that a text writes with a point, if it writes one and it is not one of the words. -/
def pointedNumber? (cs : List Char) : Option (Option Decimal) :=
  let body := usualDigits (strip cs)
  if endlessWords.contains (String.ofList (Decimal.signed body).2) then some none
  else ((Decimal.ofChars? Char.isDigit body).filter Decimal.hasDigit).map some

example : (wholeNumber "-0x_f".toList).toOption = some (-15) ∧
    (wholeNumber "1:30".toList).toOption = some 90 ∧
    (wholeNumber "010".toList).toOption = some 8 ∧ (wholeNumber "08".toList).toOption = none := by
  decide +kernel

end Bindery.Document
