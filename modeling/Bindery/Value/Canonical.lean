import Bindery.Number.Shortest
import Bindery.Text.CodePoint
import Bindery.Text.Hex
import Bindery.Text.Quoted
import Bindery.Value.Basic

/-!
# Canonical texts

The canonical text of a value writes the entries of every mapping in ascending order of their
keys and escapes everything outside printable ASCII, so that two values have the same text exactly
when they differ at most in the order of entries. It is what configurations are fingerprinted by.
-/

namespace Bindery.Value

open Text

/-- A code unit as an escape. -/
def unitEscape (n : Nat) : List Char := backslash :: 'u' :: hexDigits 4 n

/-- A code point by its escapes; beyond the basic plane it is a surrogate pair. -/
def codeEscapes (n : Nat) : List Char :=
  if n < 0x10000 then unitEscape n
  else unitEscape (0xd800 + (n - 0x10000) / 0x400) ++ unitEscape (0xdc00 + (n - 0x10000) % 0x400)

/-- A code point inside a canonical text. -/
def canonicalCode (n : Nat) : List Char :=
  let c := Char.ofNat n
  if c = doubleQuote ∨ c = backslash then [backslash, c]
  else if c = '\n' then [backslash, 'n']
  else if c = '\r' then [backslash, 'r']
  else if c = '\t' then [backslash, 't']
  else if c = '\x0c' then [backslash, 'f']
  else if c = '\x08' then [backslash, 'b']
  else if 0x20 ≤ n ∧ n ≤ 0x7e then [c]
  else codeEscapes n

/-- A text inside a canonical text. -/
def canonicalText (s : String) : List Char :=
  doubleQuote :: ((codes s.toList).flatMap canonicalCode ++ [doubleQuote])

/-- Texts with a comma and a space between neighbours. -/
def commaSeparated (parts : List (List Char)) : List Char := [',', ' '].intercalate parts

/-- Keyed texts in ascending order of their keys. -/
def sortByKey (parts : List (String × List Char)) : List (String × List Char) :=
  parts.mergeSort fun a b => !precedes b.1 a.1

/-- An entry from its key and the canonical text of its value. -/
def canonicalEntry (part : String × List Char) : List Char :=
  canonicalText part.1 ++ ':' :: ' ' :: part.2

mutual

/-- The canonical text of a value. -/
def canonicalChars (v : Value) : List Char :=
  match v with
  | .null => "null".toList
  | .bool true => "true".toList
  | .bool false => "false".toList
  | .int n => (toString n).toList
  | .float x => (x.text "Infinity").toList
  | .text s => canonicalText s
  | .list items => '[' :: (commaSeparated (canonicalItems items) ++ [']'])
  | .mapping entries =>
    '\x7b' :: (commaSeparated ((sortByKey (canonicalEntries entries)).map canonicalEntry) ++
      ['\x7d'])
termination_by structural v

/-- The canonical texts of the items of a list. -/
def canonicalItems (vs : List Value) : List (List Char) :=
  match vs with
  | [] => []
  | v :: vs => canonicalChars v :: canonicalItems vs
termination_by structural vs

/-- The canonical texts of the values of a mapping, under their keys. -/
def canonicalEntries (es : List (String × Value)) : List (String × List Char) :=
  match es with
  | [] => []
  | (k, v) :: es => (k, canonicalChars v) :: canonicalEntries es
termination_by structural es

end

/-- The canonical text of a value. -/
def canonical (v : Value) : String := String.ofList v.canonicalChars

end Bindery.Value
