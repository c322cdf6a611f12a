import Bindery.Text.CodePoint

/-!
# Places in a document

A document is a text in the YAML format. It holds printable characters alone, and is read from a
cursor, which knows the characters that are still to come and where they stand: how many characters
and line breaks come before them, and how many characters before them are on their line.
-/

namespace Bindery

/-- Why a text is no document. -/
inductive DocumentFault where
  /-- It holds a character that no document may hold. -/
  | character
  /-- At some place no token begins, or one that begins does not end. -/
  | token
  /-- Its tokens do not fit together. -/
  | arrangement
  /-- It is more than one document, or a name in it names no node or several. -/
  | composition
  /-- A node is not what its tag asks for, or a key is a list or a mapping. -/
  | content
  /-- A number is not written as numbers are or has too many digits, an escape names no character,
  or no calendar and clock have a moment. -/
  | magnitude
  /-- A number is not written at all, but for its sign. -/
  | noNumber
  /-- A word is neither true nor false. -/
  | noTruth
  /-- A moment is not written as moments are. -/
  | noMoment
  /-- An escape names a number that is beyond all counting of characters. -/
  | codePoint
  /-- Lists and mappings stand too deep inside each other. -/
  | nesting
  /-- A key is no text. -/
  | key
  deriving DecidableEq, Repr

/-- Whether the text itself is at fault, and not only what something in it means. -/
def DocumentFault.isOfText : DocumentFault → Bool
  | .character | .token | .arrangement | .composition | .content => true
  | _ => false

namespace Document

/-! ## Characters -/

/-- Whether a character breaks the line. -/
def isLineBreak (c : Char) : Bool := c == '\n' || c == '\x85' || c == '\u2028' || c == '\u2029'

/-- Whether a character is a blank. -/
def isBlank (c : Char) : Bool := c == ' ' || c == '\t'

/-- Whether a line ends where a character or nothing comes next. -/
def endsLine (c : Option Char) : Bool := c.all isLineBreak

/-- Whether a word ends where a character or nothing comes next. -/
def endsWord (c : Option Char) : Bool := c.all fun c => isLineBreak c || isBlank c

/-- Whether a field of a line ends where a character or nothing comes next; a tab ends none. -/
def endsField (c : Option Char) : Bool := c.all fun c => isLineBreak c || c == ' '

/-- The mark that a document may begin with to tell its encoding. It takes no room on its line. -/
def encodingMark : Char := '\ufeff'

/-- Whether a document may hold a character. -/
def admits (c : Char) : Bool :=
  c == '\t' || c == '\n' || c == '\r' || c == '\x85' || (0x20 ≤ c.toNat && c.toNat < 0x7f) ||
    (0xa0 ≤ c.toNat && c.toNat < 0xfffe) || 0x10000 ≤ c.toNat

/-- A text with every carriage return, and the line feed behind it if there is one, as a line
feed. -/
def unifyReturns : List Char → List Char
  | '\r' :: '\n' :: cs => '\n' :: unifyReturns cs
  | c :: cs => (if c = '\r' then '\n' else c) :: unifyReturns cs
  | [] => []

/-- A line break as it is kept in a text: the separators of lines and paragraphs stay as they are,
all others are line feeds. -/
def keptBreak (c : Char) : Char := if c = '\u2028' ∨ c = '\u2029' then c else '\n'

/-- The line breaks of a text that goes on behind them: of a single line feed there remains a
space, of several all but the first. -/
def foldedBreaks : List Char → List Char
  | [] => []
  | first :: more =>
    (if keptBreak first ≠ '\n' then [first] else if more.isEmpty then [' '] else []) ++
      more.map keptBreak

/-- Whether a line begins with the mark between two documents. -/
def beginsWithMark (mark : Char) : List Char → Bool
  | a :: b :: c :: rest => a == mark && b == mark && c == mark && endsWord rest.head?
  | _ => false

/-- Whether a line separates documents. -/
def isSeparator (line : List Char) : Bool := beginsWithMark '-' line || beginsWithMark '.' line

example : foldedBreaks ['\n', '\n', '\u2028'] = ['\n', '\u2028'] := by decide

example : isSeparator "--- a".toList ∧ ¬ isSeparator "---a".toList := by decide

/-! ## Cursors -/

/-- A place in a text. -/
structure Place where
  /-- The characters before it. -/
  offset : Nat := 0
  /-- The line breaks before it. -/
  line : Nat := 0
  /-- The characters before it on its line. -/
  column : Nat := 0
  deriving DecidableEq, Repr

/-- The place behind a character. -/
def Place.after (p : Place) (c : Char) : Place where
  offset := p.offset + 1
  line := if isLineBreak c then p.line + 1 else p.line
  column := if isLineBreak c then 0 else if c = encodingMark then p.column else p.column + 1

/-- The characters that are still to come and the place of the first of them. -/
structure Cursor where
  /-- The characters still to come. -/
  rest : List Char
  /-- Where they begin. -/
  place : Place := {}

namespace Cursor

/-- The next character. -/
def next? (c : Cursor) : Option Char := c.rest.head?

/-- Skips characters. -/
def skip : Nat → Cursor → Cursor
  | 0, c => c
  | n + 1, ⟨d :: rest, p⟩ => skip n ⟨rest, p.after d⟩
  | _ + 1, ⟨[], p⟩ => ⟨[], p⟩

/-- The characters up to the first that is not of a class, and the cursor behind them. -/
def span (isOfClass : Char → Bool) (c : Cursor) : List Char × Cursor :=
  let taken := c.rest.takeWhile isOfClass
  (taken, c.skip taken.length)

/-- Skips spaces. -/
def skipSpaces (c : Cursor) : Cursor := (c.span (· == ' ')).2

/-- Skips what remains of the line, without its break. -/
def skipLine (c : Cursor) : Cursor := (c.span fun d => !isLineBreak d).2

/-- Skips a comment up to the end of its line, if one begins here. -/
def skipComment (c : Cursor) : Cursor := if c.next? = some '#' then c.skipLine else c

end Cursor

end Document

end Bindery
