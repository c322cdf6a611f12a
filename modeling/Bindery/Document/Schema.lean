import Bindery.Document.Bytes
import Bindery.Document.Figure
import Bindery.Document.Moment
import Bindery.Value.Basic

/-!
# What the nodes of a document mean

A node has a tag, which says what kind of value it is. A plain text without a tag is tagged by its
form: there are forms for the absent value, truth values, whole numbers in several bases, numbers
with a point and moments; everything else is a text. Moments and bytes are kept as they are written.
-/

namespace Bindery.Document

open Text

/-- What a node is. -/
inductive Tag where
  /-- The absent value. -/
  | null
  /-- A truth value. -/
  | bool
  /-- A whole number. -/
  | int
  /-- A number with a point. -/
  | float
  /-- A date, with or without a time of day. -/
  | moment
  /-- A text. -/
  | text
  /-- Bytes. -/
  | bytes
  /-- A list. -/
  | list
  /-- A list of mappings with one entry each. -/
  | pairs
  /-- A mapping. -/
  | mapping
  /-- A mapping whose keys alone count. -/
  | set
  /-- The key whose value is entries to take over. -/
  | merge
  /-- The key of a default. -/
  | default
  /-- Something that no value can hold. -/
  | foreign
  deriving DecidableEq, Repr

/-- What the names of all known tags begin with. -/
def tagSpace : List Char := "tag:yaml.org,2002:".toList

/-- The tags with a name of their own. -/
def Tag.names : List (String × Tag) :=
  [("null", .null), ("bool", .bool), ("int", .int), ("float", .float), ("timestamp", .moment),
    ("str", .text), ("binary", .bytes), ("seq", .list), ("omap", .pairs), ("pairs", .pairs),
    ("map", .mapping), ("set", .set), ("merge", .merge), ("value", .default)]

/-- Whether a tag asks for something that has an inside. -/
def Tag.isCollection : Tag → Bool
  | .list | .pairs | .mapping | .set => true
  | _ => false

/-- The tag of a full name. -/
def Tag.ofName (name : List Char) : Tag :=
  if tagSpace.isPrefixOf name then
    (Tag.names.lookup (String.ofList (name.drop tagSpace.length))).getD .foreign
  else .foreign

/-! ## Forms of plain texts -/

/-- The words for the absent value. -/
def nullWords : List String := ["", "~", "null", "Null", "NULL"]

/-- The words for truth and falsehood, in lower case. -/
def boolWords : List (String × Bool) :=
  [("yes", true), ("no", false), ("true", true), ("false", false), ("on", true), ("off", false)]

/-- The truth value of a word in lower case. -/
def boolOf? (cs : List Char) : Option Bool :=
  boolWords.lookup (String.ofList (cs.map Char.toLower))

/-- Whether a word is in lower case, in upper case, or has its first letter alone in upper case. -/
def isCased (cs : List Char) : Bool :=
  let lower := cs.map Char.toLower
  cs == lower || cs == cs.map Char.toUpper || cs == (lower.take 1).map Char.toUpper ++ lower.drop 1

/-- Whether a text is digits in a base, with underscores among them. -/
def isInBase (base : Nat) (ds : List Char) : Bool :=
  !ds.isEmpty && ds.all fun c => c == '_' || (hexValue? c).any (· < base)

/-- Whether a text is a digit in base sixty. -/
def isSixtieth (ds : List Char) : Bool :=
  match ds with
  | [d] => d.isDigit
  | [c, d] => c.isDigit && c.toNat < 54 && d.isDigit
  | _ => false

/-- Whether a text is a whole number without its sign. -/
def isWhole (cs : List Char) : Bool :=
  match cs with
  | '0' :: 'b' :: ds => isInBase 2 ds
  | '0' :: 'x' :: ds => isInBase 16 ds
  | ['0'] => true
  | '0' :: ds => isInBase 8 ds
  | c :: _ =>
    c.isDigit &&
      match colonParts cs with
      | first :: more => isInBase 10 first && more.all isSixtieth
      | [] => false
  | [] => false

/-- Whether a character is a digit or an underscore. -/
def isDigitOrGap (c : Char) : Bool := c.isDigit || c == '_'

/-- The infinite number that a text names. -/
def infinite? (cs : List Char) : Option Binary64 :=
  let (sign, word) := Decimal.signed cs
  match word with
  | '.' :: word =>
    if word.map Char.toLower = "inf".toList ∧ isCased word then
      some (.ofRank (sign = some '-') Binary64.topRank)
    else none
  | _ => none

/-- A number with a point: its exponent has a sign, and a digit comes first unless the point does
and no sign stands in front of it. -/
def pointed? (cs : List Char) : Option Decimal :=
  (Decimal.ofChars? isDigitOrGap cs).filter fun x =>
    x.exponent.all (fun e => e.1.isSome) &&
      match x.whole, x.fraction with
      | d :: _, some _ => d.isDigit
      | [], some (d :: _) => d.isDigit && x.sign.isNone
      | _, _ => false

/-- The texts that are reserved. -/
def reservedWords : List String := ["!", "&", "*"]

/-- The tag of the form that a text has. -/
def Tag.ofForm (cs : List Char) : Tag :=
  let word := String.ofList cs
  if nullWords.contains word then .null
  else if (boolOf? cs).isSome ∧ isCased cs then .bool
  else if (pointed? cs).isSome ∨ (infinite? cs).isSome then .float
  else if isWhole (Decimal.signed cs).2 then .int
  else if (Moment.ofChars? cs).any Moment.isPlain then .moment
  else if word = "<<" then .merge
  else if word = "=" then .default
  else if reservedWords.contains word then .foreign
  else .text

/-- The tag of a text that is left to its form, to which a line feed at its end does not belong. -/
def Tag.ofPlain (cs : List Char) : Tag :=
  match cs.getLast? with
  | some '\n' => if cs.length = 1 then .text else .ofForm cs.dropLast
  | _ => .ofForm cs

/-- The value of a text that is said to be a number with a point. A number with colons is kept as it
is written. -/
def pointedValue (cs : List Char) : Except DocumentFault Value :=
  let plain := (cs.filter (· ≠ '_')).map Char.toLower
  let (sign, body) := Decimal.signed plain
  match plain, infinite? cs, colonParts body with
  | [], _, _ => .error .noNumber
  | _, some x, _ => .ok (.float x)
  | _, none, [part] =>
    match pointedNumber? part with
    | some (some x) =>
      .ok (.float { x.toFloat with negative := x.toFloat.negative != (sign == some '-') })
    | some none => .ok (.text (String.ofList cs))
    | none => .error .magnitude
  | _, none, parts =>
    if parts.all fun part => (pointedNumber? part).isSome then .ok (.text (String.ofList cs))
    else .error .magnitude

/-- The value of a text under its tag. -/
def Tag.valueOf (tag : Tag) (cs : List Char) : Except DocumentFault Value :=
  match tag with
  | .null => .ok .null
  | .bool =>
    match boolOf? cs with
    | some b => .ok (.bool b)
    | none => .error .noTruth
  | .int => (wholeNumber cs).map Value.int
  | .float => pointedValue cs
  | .moment =>
    match Moment.ofChars? cs with
    | some m => if m.isReal then .ok (.text (String.ofList cs)) else .error .magnitude
    | none => .error .noMoment
  | .bytes => if isBytes cs then .ok (.text (String.ofList cs)) else .error .content
  | .text => .ok (.text (String.ofList cs))
  | _ => .error .content

example : Tag.ofPlain "1.5e+3".toList = .float ∧ Tag.ofPlain "15e2".toList = .text := by decide

example : Tag.ofPlain "-0x_f".toList = .int ∧ Tag.ofPlain "08".toList = .text := by decide

example : Tag.ofPlain "No".toList = .bool ∧ Tag.ofPlain "nO".toList = .text := by decide

end Bindery.Document
