import Bindery.Document.Cursor

/-!
# Plain texts of a document

A text without quotes ends where something that is kept for other uses begins: a colon that ends a
key, a comment, inside brackets also commas and the brackets themselves. It may go over several
lines, which are folded, as long as they are indented.
-/

namespace Bindery.Document.Plain

/-- Whether a colon ends a key where a character or nothing comes next. -/
def endsKey (inBrackets : Bool) (next : Option Char) : Bool :=
  endsWord next || (inBrackets && next.any fun c => [',', '[', ']', '\x7b', '\x7d'].contains c)

/-- The characters up to the first that ends a word of a plain text. -/
def word (inBrackets : Bool) : List Char → List Char
  | [] => []
  | c :: rest =>
    if isBlank c || isLineBreak c || (c == ':' && endsKey inBrackets rest.head?) ||
        (inBrackets && [',', '?', '[', ']', '\x7b', '\x7d'].contains c) then []
    else c :: word inBrackets rest

/-- Reads line breaks and the spaces between them: the breaks, or nothing if the line behind them
separates documents, and the cursor behind them. -/
def readBreaks (run : List Char) (p : Place) : List Char → Option (List Char) × Cursor
  | [] => (some run.reverse, ⟨[], p⟩)
  | c :: rest =>
    if isLineBreak c then
      if isSeparator rest then (none, ⟨rest, p.after c⟩)
      else readBreaks (c :: run) (p.after c) rest
    else if c = ' ' then readBreaks run (p.after c) rest
    else (some run.reverse, ⟨c :: rest, p⟩)

/-- What stands between two words. -/
structure Gap where
  /-- What it stands for, nothing if no word can follow. -/
  text : List Char
  /-- Whether it breaks the line. -/
  isBroken : Bool
  /-- The cursor behind it. -/
  cursor : Cursor

/-- Reads the gap that is next. -/
def readGap (c : Cursor) : Gap :=
  let (spaces, behind) := c.span (· == ' ')
  if behind.next?.any isLineBreak then
    let (breaks, behind) := readBreaks [] behind.place behind.rest
    ⟨(breaks.map foldedBreaks).getD [], true, behind⟩
  else ⟨spaces, false, behind⟩

/-- Reads words, behind a gap, for as many characters as there can be. -/
def readWords (inBrackets : Bool) (indent : Nat) : Nat → List Char → Gap → List Char × Gap
  | 0, done, gap => (done, gap)
  | bound + 1, done, gap =>
    let next := if gap.cursor.next? = some '#' then [] else word inBrackets gap.cursor.rest
    if next.isEmpty then (done, gap)
    else
      let done := done ++ gap.text ++ next
      let gap := readGap (gap.cursor.skip next.length)
      if gap.text.isEmpty || (!inBrackets && gap.cursor.place.column < indent) then (done, gap)
      else readWords inBrackets indent bound done gap

/-- Reads the plain text that is next, and the gap behind it. -/
def read (inBrackets : Bool) (indent : Nat) (c : Cursor) : List Char × Gap :=
  readWords inBrackets indent c.rest.length [] ⟨[], false, c⟩

example : (read false 0 { rest := "a b\n c: d".toList }).1 = "a b c".toList := by decide

example : (read true 0 { rest := "a:b ]".toList }).1 = "a:b".toList := by decide

end Bindery.Document.Plain
