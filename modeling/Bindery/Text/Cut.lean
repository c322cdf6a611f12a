/-!
# Cutting and replacing

Texts are cut at every separator, and every occurrence of a pattern is replaced, scanning from the
left and never rescanning what was written. Cutting loses only the separators.
-/

namespace Bindery.Text

/-- The pieces between the separators; a text without one is its own single piece. -/
def cut (isSeparator : Char → Bool) : List Char → List (List Char)
  | [] => [[]]
  | c :: cs =>
    if isSeparator c then [] :: cut isSeparator cs
    else match cut isSeparator cs with
      | [] => [[c]]
      | piece :: rest => (c :: piece) :: rest

/-- A text has at least one piece. -/
theorem cut_ne_nil (p : Char → Bool) (cs : List Char) : cut p cs ≠ [] := by
  cases cs with
  | nil => simp [cut]
  | cons c cs =>
    rw [cut]
    split
    · simp
    · split <;> simp

/-- Pieces with a separator between neighbours. -/
def joinWith (separator : List Char) (pieces : List (List Char)) : List Char :=
  separator.intercalate pieces

/-- Replaces every occurrence of a non-empty pattern, from the left; `skip` characters of an
occurrence that was already replaced are passed over first. -/
def replaceFrom (old new : List Char) : Nat → List Char → List Char
  | _, [] => []
  | skip + 1, _ :: cs => replaceFrom old new skip cs
  | 0, c :: cs =>
    if old.isPrefixOf (c :: cs) then new ++ replaceFrom old new (old.length - 1) cs
    else c :: replaceFrom old new 0 cs

/-- Replaces every occurrence of a non-empty pattern, from the left. -/
def replaceAll (old new cs : List Char) : List Char := replaceFrom old new 0 cs

example : replaceAll "aa".toList "b".toList "aaaxaa".toList = "baxb".toList := by decide

/-- The text before the first occurrence of a mark, and the text behind it if the mark occurs. -/
def splitFirst (mark : Char) : List Char → List Char × Option (List Char)
  | [] => ([], none)
  | c :: cs =>
    if c = mark then ([], some cs)
    else let (before, after) := splitFirst mark cs
      (c :: before, after)

/-- The text before the last occurrence of a mark, or all of it if the mark does not occur. -/
def beforeLast (mark : Char) (cs : List Char) : List Char :=
  match (splitFirst mark cs.reverse).2 with
  | some before => before.reverse
  | none => cs

example : beforeLast ')' "a)b)c".toList = "a)b".toList := by decide

example : beforeLast ')' "abc".toList = "abc".toList := by decide

end Bindery.Text
