import Bindery.Document.Cursor
import Bindery.Text.Hex
import Bindery.Text.Quoted

/-!
# Quoted texts of a document

A text in quotes may go over several lines, which are folded. In double quotes a backslash begins an
escape; halves of surrogate pairs that are escaped are never put together. In single quotes a quote
is written twice.
-/

namespace Bindery.Document.Quoted

open Text

/-- What is being read. -/
inductive Inside where
  /-- Characters that stand for themselves. -/
  | text
  /-- Blanks, which are dropped if a line break follows; last first. -/
  | blanks (run : List Char)
  /-- Line breaks and the blanks behind them, last first. The first break is dropped if it is
  escaped. -/
  | breaks (isEscaped : Bool) (run : List Char)
  /-- What follows a backslash. -/
  | escape
  /-- The digits of a code point, of which the given number is still to come; last first. -/
  | code (missing : Nat) (digits : List Char)
  /-- The second of two single quotes. -/
  | twin

/-- What the run that is being read stands for if the text goes on behind it. -/
def Inside.released : Inside → List Char
  | .blanks run => run.reverse
  | .breaks false run => foldedBreaks run.reverse
  | .breaks true run => run.reverse.drop 1 |>.map keptBreak
  | _ => []

/-- The character that an escape letter stands for. -/
def letterEscape? (c : Char) : Option Char :=
  [('0', '\x00'), ('a', '\x07'), ('b', '\x08'), ('t', '\t'), ('\t', '\t'), ('n', '\n'),
    ('v', '\x0b'), ('f', '\x0c'), ('r', '\r'), ('e', '\x1b'), (' ', ' '),
    (doubleQuote, doubleQuote), (backslash, backslash), ('/', '/'), ('N', '\x85'), ('_', '\xa0'),
    ('L', '\u2028'), ('P', '\u2029')].lookup c

/-- The number of digits behind an escape letter. -/
def codeLength? (c : Char) : Option Nat := [('x', 2), ('u', 4), ('U', 8)].lookup c

/-- The greatest number that a code point is counted by. -/
def mostCounted : Nat := 0x7fffffff

/-- What holds the code point of some digits, which is the same from both ends. -/
def ofDigits (digits : List Char) : Except DocumentFault (List Char) :=
  let n := (ofHex? digits).getD 0
  if n < 0x110000 then .ok (ofCode n)
  else if n ≤ mostCounted then .error .magnitude
  else .error .codePoint

/-- Where a character leads to: what is then being read and the text so far, last first, or
nothing if the text is at its end. What follows the character is given too. -/
def advance (quote : Char) (state : Inside) (done : List Char) (c : Char) (following : List Char) :
    Except DocumentFault (Option (Inside × List Char)) :=
  match state with
  | .escape =>
    match letterEscape? c, codeLength? c with
    | some meant, _ => .ok (some (.text, meant :: done))
    | none, some length => .ok (some (.code length [], done))
    | none, none =>
      if isLineBreak c ∧ ¬ isSeparator following then .ok (some (.breaks true [c], done))
      else .error .token
  | .code missing digits =>
    if (hexValue? c).isNone then .error .token
    else if missing ≤ 1 then do
      return some (.text, (← ofDigits (c :: digits).reverse) ++ done)
    else .ok (some (.code (missing - 1) (c :: digits), done))
  | .twin => .ok (some (.text, c :: done))
  | state =>
    if isLineBreak c then
      if isSeparator following then .error .token
      else
        match state with
        | .breaks isEscaped run => .ok (some (.breaks isEscaped (c :: run), done))
        | _ => .ok (some (.breaks false [c], done))
    else if isBlank c then
      match state with
      | .breaks isEscaped run => .ok (some (.breaks isEscaped run, done))
      | .blanks run => .ok (some (.blanks (c :: run), done))
      | _ => .ok (some (.blanks [c], done))
    else
      let done := state.released.reverse ++ done
      if c = quote then
        if quote = singleQuote ∧ following.head? = some quote then .ok (some (.twin, done))
        else .ok none
      else if c = backslash ∧ quote = doubleQuote then .ok (some (.escape, done))
      else .ok (some (.text, hold c ++ done))

/-- What an ending text still takes from the run before its closing quote. -/
def finish (state : Inside) (done : List Char) : List Char :=
  (state.released.reverse ++ done).reverse

/-- Reads from inside the quotes to behind the closing one. -/
def readFrom (quote : Char) (state : Inside) (done : List Char) (p : Place) :
    List Char → Except DocumentFault (List Char × Cursor)
  | [] => .error .token
  | c :: rest => do
    match ← advance quote state done c rest with
    | some (state, done) => readFrom quote state done (p.after c) rest
    | none => return (finish state done, ⟨rest, p.after c⟩)

/-- Reads the text whose opening quote is next. -/
def read (c : Cursor) : Except DocumentFault (List Char × Cursor) :=
  match c.rest with
  | [] => .error .token
  | quote :: rest => readFrom quote .text [] (c.place.after quote) rest

/-- The text of a quoted text, for closed examples. -/
def textOf (s : String) : Option String :=
  match read { rest := s.toList } with
  | .ok (text, _) => some (String.ofList text)
  | .error _ => none

example : textOf "'it''s'" = some "it's" := by decide

example : textOf "\"a \n\n b\\x41\"" = some "a\nbA" := by decide

example : textOf "\"a\n--- b\"" = none := by decide

end Bindery.Document.Quoted
