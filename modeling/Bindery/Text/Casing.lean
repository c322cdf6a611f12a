import Bindery.Text.CaseMap
import Bindery.Text.Letter

/-!
# Recasing the first letter

Identifiers follow one convention or another by the case of their first letter alone. A text that
does not begin with a letter has nothing to recase.
-/

namespace Bindery.Text

/-- Maps the first character if it is a letter. -/
def mapFirstLetter (f : Char → List Char) : List Char → List Char
  | [] => []
  | c :: cs => if isLetter c then f c ++ cs else c :: cs

/-- The text with an upper-case first letter. -/
def capitalize (cs : List Char) : List Char := mapFirstLetter toUpper cs

/-- The text with a lower-case first letter. -/
def uncapitalize (cs : List Char) : List Char := mapFirstLetter toLower cs

/-- The whole text in upper case, character by character. -/
def upperCase (cs : List Char) : List Char := cs.flatMap toUpper

example : capitalize "fooBar".toList = "FooBar".toList ∧ capitalize "_x".toList = "_x".toList := by
  decide

end Bindery.Text
