import Bindery.Text.Cut
import Bindery.Text.Ranges

/-!
# Blanks

The characters that separate words: the line and field separators of the control range, the
spaces of every width, and the line and paragraph separators.
-/

namespace Bindery.Text

/-- The blanks, in ascending ranges. -/
def blanks : Ranges :=
  [(9, 13), (28, 32), (133, 133), (160, 160), (5760, 5760), (8192, 8202), (8232, 8233),
    (8239, 8239), (8287, 8287), (12288, 12288)]

/-- A character that separates words. -/
def isBlank (c : Char) : Bool := blanks.covers c

/-- The words of a text, in order: its maximal stretches without a blank. -/
def words (cs : List Char) : List (List Char) := (cut isBlank cs).filter fun w => !w.isEmpty

/-- Words with one space between neighbours. -/
def unwords (ws : List (List Char)) : List Char := joinWith [' '] ws

/-- Several words are joined by putting the first one and a space in front of the others. -/
theorem unwords_cons (w : List Char) {ws : List (List Char)} (h : ws ≠ []) :
    unwords (w :: ws) = w ++ ' ' :: unwords ws := by
  obtain ⟨v, ws, rfl⟩ := List.exists_cons_of_ne_nil h
  rw [unwords, joinWith, List.intercalate_cons_cons, List.append_assoc]
  rfl

/-- A single word is joined to itself. -/
theorem unwords_singleton (w : List Char) : unwords [w] = w := by
  rw [unwords, joinWith, List.intercalate_singleton]

/-- Joined words are words with a space in front of each, without the first space. -/
theorem unwords_eq_tail (ws : List (List Char)) : unwords ws = (ws.flatMap (' ' :: ·)).tail := by
  induction ws with
  | nil => rfl
  | cons w ws ih =>
    cases ws with
    | nil => simp [unwords_singleton]
    | cons v ws =>
      rw [unwords_cons w (List.cons_ne_nil v ws), ih]
      rfl

/-- The text without the blanks at its two ends. -/
def strip (cs : List Char) : List Char :=
  ((cs.dropWhile isBlank).reverse.dropWhile isBlank).reverse

example : words " a  bc\n".toList = ["a".toList, "bc".toList] := by decide

example : strip " a  b ".toList = "a  b".toList := by decide

end Bindery.Text
