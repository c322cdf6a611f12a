import Bindery.Fault
import Bindery.Text.CodePoint
import Bindery.Text.Numeral

/-!
# Columns

How a value is laid out in a column. A column is described by a fill character and an alignment, a
sign, a width, and behind a point a number of characters or digits; a letter at the end tells the
form. Texts and whole numbers read the same description, and each refuses what does not concern it.
-/

namespace Bindery.Template

open Text

/-- The largest number that a template may write. -/
def largestNumber : Nat := Nat.pow 2 63 - 1

/-- Reads leading decimal digits; a number that is too large is refused. -/
def leadingNumber (cs : List Char) : Except Fault (Option Nat × List Char) :=
  match number? (cs.takeWhile isDecimalDigit) with
  | some n =>
    if n ≤ largestNumber then .ok (some n, cs.dropWhile isDecimalDigit) else .error .malformedText
  | none => .ok (none, cs)

/-- Where a value stands in its column. -/
inductive Alignment where
  /-- On the left. -/
  | left
  /-- In the middle, or one to the left of it. -/
  | middle
  /-- On the right. -/
  | right
  /-- On the right, with its sign on the left. -/
  | spread
  deriving DecidableEq, Repr

/-- The alignment that a character stands for. -/
def Alignment.ofChar? : Char → Option Alignment
  | '<' => some .left
  | '^' => some .middle
  | '>' => some .right
  | '=' => some .spread
  | _ => none

/-- How a value is laid out. -/
structure Column where
  /-- What the column is filled with. -/
  filling : List Char := [' ']
  /-- Where the value stands, if it is told. -/
  alignment : Option Alignment := none
  /-- What stands in front of a number that is not negative. -/
  sign : Option Char := none
  /-- Whether a negative zero is to lose its sign. -/
  unsignsZero : Bool := false
  /-- Whether a number tells its form. -/
  tellsForm : Bool := false
  /-- How wide the column is at least. -/
  width : Nat := 0
  /-- What separates groups of digits. -/
  separator : Option Char := none
  /-- How many characters or digits are kept. -/
  kept : Option Nat := none
  /-- The form of the value. -/
  form : Option Char := none
  deriving DecidableEq, Repr

namespace Column

/-- Takes a character away if it comes first. -/
def taking (c : Char) (cs : List Char) : Bool × List Char :=
  if cs.head? = some c then (true, cs.drop 1) else (false, cs)

/-- Reads the fill character and the alignment, and whether there is a fill character. -/
def readAlignment (cs : List Char) : Column × Bool × List Char :=
  let filling := (glyphs cs).head?.getD []
  match (cs.drop filling.length).head?.bind Alignment.ofChar?, cs.head?.bind Alignment.ofChar? with
  | some alignment, _ => ({ filling, alignment }, true, cs.drop (filling.length + 1))
  | none, some alignment => ({ alignment }, false, cs.drop 1)
  | none, none => ({}, false, cs)

/-- Reads what separates groups of digits; there is one separator at most. -/
def readSeparator (cs : List Char) : Except Fault (Option Char × List Char) :=
  match cs with
  | ',' :: '_' :: _ | '_' :: ',' :: _ | ',' :: ',' :: _ | '_' :: '_' :: _ =>
    .error .malformedText
  | ',' :: rest => .ok (some ',', rest)
  | '_' :: rest => .ok (some '_', rest)
  | rest => .ok (none, rest)

/-- Reads the number behind a point. -/
def readKept (cs : List Char) : Except Fault (Option Nat × List Char) :=
  match cs with
  | '.' :: rest => do
    match ← leadingNumber rest with
    | (some n, rest) => return (some n, rest)
    | (none, _) => throw .malformedText
  | rest => .ok (none, rest)

/-- The groups that a separator can make in a form: none if it makes no sense there. -/
def groupOf? (separator : Char) (form : Option Char) : Option Nat :=
  if form.all fun f => ['d', 'e', 'f', 'g', 'E', 'F', 'G', '%'].contains f then some 3
  else if separator = '_' ∧ form.any fun f => ['b', 'o', 'x', 'X'].contains f then some 4
  else none

/-- Reads the description of a column for values that stand on the right if they are numbers. The
zero that fills a column with zeros comes before the width. -/
def ofChars (isNumber : Bool) (cs : List Char) : Except Fault Column := do
  let (column, isFilled, cs) := readAlignment cs
  let (sign, cs) := match cs with
    | c :: rest => if [' ', '+', '-'].contains c then (some c, rest) else (none, cs)
    | [] => (none, cs)
  let (unsignsZero, cs) := taking 'z' cs
  let (tellsForm, cs) := taking '#' cs
  let (isZeroed, cs) := if isFilled then (false, cs) else taking '0' cs
  let (width, cs) ← leadingNumber cs
  let (separator, cs) ← readSeparator cs
  let (kept, cs) ← readKept cs
  let form ← match cs with
    | [] => pure none
    | [f] => pure (some f)
    | _ => throw .malformedText
  if separator.any fun s => (groupOf? s form).isNone then throw .malformedText
  return {
    filling := if isZeroed then ['0'] else column.filling
    alignment := column.alignment.or (if isZeroed && isNumber then some .spread else none)
    sign, unsignsZero, tellsForm, width := width.getD 0, separator, kept, form }

/-- The longest stretch of filling that is written out; no disk takes a name of this length. -/
def longestFilling : Nat := Nat.pow 2 16

/-- A character as often as asked for, as far as it is written out. -/
def stretch (n : Nat) (c : Char) : List Char := List.replicate (min n longestFilling) c

/-- From this width on no memory holds the column. -/
def boundlessWidth : Nat := Nat.pow 2 35

/-- Fills a column around a value, of which a beginning stays in front of the filling if the value
is spread. -/
def fill (column : Column) (usual : Alignment) (beginning value : List Char) :
    Except Fault (List Char) :=
  let room := column.width - (beginning.length + (glyphs value).length)
  let filled (n : Nat) : List Char :=
    (List.replicate (min n longestFilling) column.filling).flatten
  if boundlessWidth ≤ column.width then .error .outOfMemory
  else
    match column.alignment.getD usual with
    | .left => .ok (beginning ++ value ++ filled room)
    | .right => .ok (filled room ++ beginning ++ value)
    | .spread => .ok (beginning ++ filled room ++ value)
    | .middle => .ok (filled (room / 2) ++ beginning ++ value ++ filled (room - room / 2))

/-- Lays a text out. A text has no sign, no groups and no form but its own. -/
def layText (column : Column) (cs : List Char) : Except Fault (List Char) :=
  if column.sign.isSome || column.unsignsZero || column.tellsForm || column.separator.isSome ||
      column.alignment = some .spread || column.form.any (· ≠ 's') then .error .malformedText
  else
    column.fill .left [] (match column.kept with
      | some n => ((glyphs cs).take n).flatten
      | none => cs)

/-! ## Whole numbers -/

/-- The digits of a number in a base. -/
def digitsIn (base n : Nat) : List Char := Nat.toDigits base n

/-- Digits in reverse with a separator in front of every full group, of which the next one has a
number of digits already. -/
def separated (separator : Char) (size : Nat) : Nat → List Char → List Char
  | _, [] => []
  | inGroup, d :: more =>
    if inGroup = size then separator :: d :: separated separator size 1 more
    else d :: separated separator size (inGroup + 1) more

/-- Puts separators between groups of digits, counted from the right, with as many zeros in front as
it takes to reach a number of characters. -/
def grouped (separator : Char) (size least : Nat) (digits : List Char) : List Char :=
  let needed := least - (least - 1) / (size + 1)
  let zeros := List.replicate (needed - digits.length) '0'
  (separated separator size 0 (digits.reverse ++ zeros)).reverse

example : grouped ',' 3 4 ['7'] = "0,007".toList ∧ grouped ',' 3 5 ['7'] = "0,007".toList ∧
    grouped ',' 3 3 ['7'] = "007".toList ∧ grouped ',' 3 0 "1234".toList = "1,234".toList := by
  decide

/-- The first characters of a number: its sign and the mark of its form. -/
def beginning (column : Column) (isNegative : Bool) (mark : List Char) : List Char :=
  let sign := if isNegative then ['-'] else column.sign.toList.filter (· ≠ '-')
  sign ++ mark

/-- Lays digits out behind a beginning. Digits that are spread with zeros are grouped with them. -/
def layDigits (column : Column) (beginning digits rest : List Char) : Except Fault (List Char) :=
  match column.separator with
  | none => column.fill .right beginning (digits ++ rest)
  | some s =>
    let size := (groupOf? s column.form).getD 3
    let isPadded := column.filling = ['0'] ∧ column.alignment = some .spread
    let least := if isPadded then
        min (column.width - beginning.length - rest.length) longestFilling
      else 0
    column.fill .right beginning (grouped s size least digits ++ rest)

/-- The whole number nearest to a quotient, a half going to the even neighbour. -/
def rounded (num den : Nat) : Nat :=
  let quotient := num / den
  let double := 2 * (num % den)
  if double < den then quotient
  else if den < double then quotient + 1
  else quotient + quotient % 2

/-- A number by its first digits and the exponent of the first of them. -/
def scientific (n digits : Nat) : List Char × Nat :=
  let exact := digitsIn 10 n
  if exact.length ≤ digits then
    (exact ++ stretch (digits - exact.length) '0', exact.length - 1)
  else
    let written := digitsIn 10 (rounded n (Nat.pow 10 (exact.length - digits)))
    if digits < written.length then (written.take digits, exact.length)
    else (written, exact.length - 1)

/-- The greatest number of digits that can be asked for behind a point. An exponent has no room for
one more in front of it, and then there are none behind the point. -/
def mostKept : Nat := Nat.pow 2 31 - 1

/-- Digits behind a point, if there are any or the point is to be told. -/
def behindPoint (column : Column) (digits : List Char) : List Char :=
  if digits.isEmpty && !column.tellsForm then [] else '.' :: digits

/-- An exponent of two digits at least. -/
def exponentText (letter : Char) (exponent : Nat) : List Char :=
  let digits := digitsIn 10 exponent
  letter :: '+' :: (if digits.length < 2 then '0' :: digits else digits)

/-- The digits of a number in a form with a point: those that are grouped and the others. -/
def pointedDigits (column : Column) (form : Char) (n : Nat) : List Char × List Char :=
  let kept := column.kept.getD 6
  match form with
  | 'f' | 'F' => (digitsIn 10 n, column.behindPoint (stretch kept '0'))
  | '%' => (digitsIn 10 (100 * n), column.behindPoint (stretch kept '0') ++ ['%'])
  | 'e' | 'E' =>
    let kept := if kept = mostKept then 0 else kept
    let (digits, exponent) := scientific n (kept + 1)
    (digits.take 1, column.behindPoint (digits.drop 1) ++ exponentText form exponent)
  | _ =>
    let kept := max kept 1
    let letter := if form = 'G' then 'E' else 'e'
    let trimmed (digits : List Char) : List Char :=
      if column.tellsForm then digits else (digits.reverse.dropWhile (· = '0')).reverse
    let (digits, exponent) := scientific n kept
    if exponent < kept then
      (digits.take (exponent + 1), column.behindPoint (trimmed (digits.drop (exponent + 1))))
    else
      (digits.take 1,
        column.behindPoint (trimmed (digits.drop 1)) ++ exponentText letter exponent)

/-- The base of a form of whole numbers, and its mark. -/
def baseOf? : Option Char → Option (Nat × List Char)
  | none | some 'd' | some 'n' => some (10, [])
  | some 'b' => some (2, ['0', 'b'])
  | some 'o' => some (8, ['0', 'o'])
  | some 'x' => some (16, ['0', 'x'])
  | some 'X' => some (16, ['0', 'X'])
  | _ => none

/-- Lays a whole number out. -/
def layNumber (column : Column) (n : Int) : Except Fault (List Char) := do
  let isNegative := n < 0
  match column.form, baseOf? column.form with
  | form, some (base, mark) =>
    if column.kept.isSome || column.unsignsZero then throw .malformedText
    let digits := digitsIn base n.natAbs
    let digits := if form = some 'X' then digits.map Char.toUpper else digits
    let mark := if column.tellsForm then mark else []
    column.layDigits (column.beginning isNegative mark) digits []
  | some 'c', none =>
    if column.kept.isSome || column.unsignsZero || column.sign.isSome || column.tellsForm then
      throw .malformedText
    if isCode n.toNat then column.fill .right [] (ofCode n.toNat) else throw .codeTooLarge
  | some form, none =>
    if column.kept.any (mostKept < ·) then throw .malformedText
    if ['e', 'E', 'f', 'F', 'g', 'G', '%'].contains form then
      let (digits, rest) := column.pointedDigits form n.natAbs
      column.layDigits (column.beginning isNegative []) digits rest
    else throw .malformedText
  | none, none => throw .malformedText

end Column

end Bindery.Template
