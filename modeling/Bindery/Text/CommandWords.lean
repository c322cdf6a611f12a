import Bindery.Text.Quoted

/-!
# Words of a command

A command that is given as one text is cut into words at its blanks. Quotes keep blanks together,
and a backslash takes the next character as it is; between single quotes it is a character like any
other, and between double quotes it is one unless a double quote or a backslash follows. A quote
that is not closed, or a backslash at the end, is an error.
-/

namespace Bindery.Text

/-- The blanks between the words of a command. -/
def isCommandBlank (c : Char) : Bool := c == ' ' || c == '\t' || c == '\r' || c == '\n'

/-- A word that was begun, with one more character. -/
def extendWord (word : Option (List Char)) (c : Char) : Option (List Char) :=
  some (word.getD [] ++ [c])

/-- Where in a command a character stands. -/
inductive CommandPlace where
  /-- Outside of quotes. -/
  | bare
  /-- Inside quotes of the given kind. -/
  | quoted (quote : Char)
  /-- Behind a backslash, inside quotes of the given kind if there are any. -/
  | escaped (quote : Option Char)
  deriving DecidableEq, Repr

/-- The words of a command from a place on, given the word that was begun. -/
def commandWordsFrom (place : CommandPlace) (word : Option (List Char)) :
    List Char → Option (List (List Char))
  | [] => if place = .bare then some word.toList else none
  | c :: cs =>
    match place with
    | .bare =>
      if isCommandBlank c then (commandWordsFrom .bare none cs).map (word.toList ++ ·)
      else if c = backslash then commandWordsFrom (.escaped none) word cs
      else if c = singleQuote ∨ c = doubleQuote then
        commandWordsFrom (.quoted c) (some (word.getD [])) cs
      else commandWordsFrom .bare (extendWord word c) cs
    | .quoted q =>
      if c = q then commandWordsFrom .bare word cs
      else if c = backslash ∧ q = doubleQuote then commandWordsFrom (.escaped (some q)) word cs
      else commandWordsFrom (.quoted q) (extendWord word c) cs
    | .escaped none => commandWordsFrom .bare (extendWord word c) cs
    | .escaped (some q) =>
      let kept := if c = q ∨ c = backslash then word else extendWord word backslash
      commandWordsFrom (.quoted q) (extendWord kept c) cs

/-- The words of a command, if it is well formed. -/
def commandWords (command : String) : Option (List String) :=
  (commandWordsFrom .bare none command.toList).map fun words => words.map String.ofList

example : commandWords "a 'b c'd \x22\x22 e\x5c f" = some ["a", "b cd", "", "e f"] := by decide

example : commandWords "a 'b" = none := by decide

end Bindery.Text
