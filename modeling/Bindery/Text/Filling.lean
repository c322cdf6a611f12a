/-!
# Lines of words

Words are put on lines with one space between neighbours, on every line as many as fit in a width. A
word that is too long for a line has one of its own.
-/

namespace Bindery.Text

/-- The lines of words that follow a line which is already begun. -/
def fillFrom (width : Nat) (line : List Char) : List (List Char) → List (List Char)
  | [] => [line]
  | w :: ws =>
    if line.length + 1 + w.length ≤ width then fillFrom width (line ++ ' ' :: w) ws
    else line :: fillFrom width w ws

/-- Words put on lines. -/
def fill (width : Nat) : List (List Char) → List (List Char)
  | [] => []
  | w :: ws => fillFrom width w ws

example : fill 6 ["ab".toList, "cd".toList, "ef".toList, "a-long-one".toList] =
    ["ab cd".toList, "ef".toList, "a-long-one".toList] := by
  decide

end Bindery.Text
