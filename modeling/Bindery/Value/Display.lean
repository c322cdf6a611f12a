import Bindery.Number.Shortest
import Bindery.Text.Quoted
import Bindery.Value.Basic

/-!
# Values in messages and names

A value that stands where a text is expected is displayed. A text displays as itself; inside a
list or a mapping it is quoted, as is everything in a literal.
-/

namespace Bindery.Value

/-- The word for infinity in displayed numbers. -/
def infinityWord : String := "inf"

mutual

/-- A value written out so that texts show as texts. -/
def literalChars (v : Value) : List Char :=
  match v with
  | .null => "None".toList
  | .bool true => "True".toList
  | .bool false => "False".toList
  | .int n => (toString n).toList
  | .float x => (x.text infinityWord).toList
  | .text s => Text.quoted s.toList
  | .list items => '[' :: (literalItems items ++ [']'])
  | .mapping entries => '\x7b' :: (literalEntries entries ++ ['\x7d'])
termination_by structural v

/-- Items separated by a comma and a space. -/
def literalItems (vs : List Value) : List Char :=
  match vs with
  | [] => []
  | [v] => literalChars v
  | v :: vs => literalChars v ++ ',' :: ' ' :: literalItems vs
termination_by structural vs

/-- Entries separated by a comma and a space. -/
def literalEntries (es : List (String × Value)) : List Char :=
  match es with
  | [] => []
  | [(k, v)] => Text.quoted k.toList ++ ':' :: ' ' :: literalChars v
  | (k, v) :: es =>
    Text.quoted k.toList ++ ':' :: ' ' :: literalChars v ++ ',' :: ' ' :: literalEntries es
termination_by structural es

end

/-- A value written out so that texts show as texts. -/
def literal (v : Value) : String := String.ofList v.literalChars

/-- A value as a text. -/
def display : Value → String
  | .text s => s
  | v => v.literal

/-- A text displays as itself. -/
@[simp] theorem display_text (s : String) : (Value.text s).display = s := rfl

/-- The displayed value if it is given, otherwise the default. -/
def displayOr (v : Value) (default : String) : String :=
  if v.isGiven then v.display else default

/-- The word for the kind of a value. -/
def kindWord : Value → String
  | .null => "NoneType"
  | .bool _ => "bool"
  | .int _ => "int"
  | .float _ => "float"
  | .text _ => "str"
  | .list _ => "list"
  | .mapping _ => "dict"

end Bindery.Value
