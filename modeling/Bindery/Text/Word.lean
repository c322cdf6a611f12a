import Bindery.Text.Letter
import Bindery.Text.Numeral

/-!
# Word characters

The characters an identifier may consist of, and the stretches of them in a text. A stretch is
maximal: a word character never stands next to the end of another stretch of words.
-/

namespace Bindery.Text

/-- A letter, a numeral or the underscore. -/
def isWord (c : Char) : Bool := c == '_' || isLetter c || isNumeral c

example : isWord 'q' = true ∧ isWord '_' = true ∧ isWord '5' = true ∧ isWord ':' = false ∧
    isWord ' ' = false := by
  decide

/-- The text cut into maximal stretches of word characters and of other characters. -/
def stretches (cs : List Char) : List (List Char) := cs.splitBy fun a b => isWord a == isWord b

/-- Maps every maximal stretch on its own. -/
def mapStretches (f : List Char → List Char) (cs : List Char) : List Char :=
  (stretches cs).flatMap f

end Bindery.Text
