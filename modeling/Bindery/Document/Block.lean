import Bindery.Document.Cursor

/-!
# Block texts of a document

A block text is written on lines of its own below its mark, indented to a common depth. A literal
one keeps its line breaks and a folded one folds them between lines that begin without a blank.
Behind the mark may stand the depth of the indentation and whether the breaks at the end are kept.
-/

namespace Bindery.Document.Block

/-- What happens to the line breaks at the end of a block text. -/
inductive Tail where
  /-- They are dropped. -/
  | strip
  /-- The first is kept. -/
  | clip
  /-- All are kept. -/
  | keep
  deriving DecidableEq, Repr

/-- What a sign behind the mark says on the tail. -/
def Tail.ofSign? : Option Char → Option Tail
  | some '+' => some .keep
  | some '-' => some .strip
  | _ => none

/-- What a digit behind the mark says on the depth. -/
def depth? (c : Option Char) : Option Nat :=
  c.bind fun d => if d.isDigit then some (d.toNat - 48) else none

/-- Reads what stands behind the mark: the tail and the depth, if it is given. -/
def readHeader (c : Cursor) : Except DocumentFault (Tail × Option Nat × Cursor) := do
  let (tail, depth, c) :=
    match Tail.ofSign? c.next?, depth? c.next? with
    | some tail, _ =>
      let c := c.skip 1
      match depth? c.next? with
      | some depth => (tail, some depth, c.skip 1)
      | none => (tail, none, c)
    | none, some depth =>
      let c := c.skip 1
      match Tail.ofSign? c.next? with
      | some tail => (tail, some depth, c.skip 1)
      | none => (.clip, some depth, c)
    | none, none => (.clip, none, c)
  let behind := c.skipSpaces.skipComment
  if depth = some 0 ∨ ¬ endsField c.next? ∨ ¬ endsLine behind.next? then throw .token
  return (tail, depth, behind.skip 1)

/-- Reads empty lines and the indentation of the next one. -/
def readBreaks (indent : Nat) (run : List Char) (p : Place) : List Char → List Char × Cursor
  | [] => (run.reverse, ⟨[], p⟩)
  | c :: rest =>
    if c = ' ' ∧ p.column < indent then readBreaks indent run (p.after c) rest
    else if isLineBreak c then readBreaks indent (c :: run) (p.after c) rest
    else (run.reverse, ⟨c :: rest, p⟩)

/-- Reads empty lines and all spaces of the next one: the breaks and the greatest depth. -/
def readIndentation (deepest : Nat) (run : List Char) (p : Place) :
    List Char → Nat × List Char × Cursor
  | [] => (deepest, run.reverse, ⟨[], p⟩)
  | c :: rest =>
    if isLineBreak c then readIndentation deepest (c :: run) (p.after c) rest
    else if c = ' ' then readIndentation (max deepest (p.column + 1)) run (p.after c) rest
    else (deepest, run.reverse, ⟨c :: rest, p⟩)

/-- A block text as far as it is read. -/
structure Progress where
  /-- The lines so far. -/
  done : List Char := []
  /-- The break of the last line. -/
  lastBreak : List Char := []
  /-- The breaks of the empty lines behind it. -/
  breaks : List Char
  /-- The cursor behind them. -/
  cursor : Cursor

/-- Whether another line of the text follows. -/
def Progress.goesOn (x : Progress) (indent : Nat) : Bool :=
  x.cursor.place.column == indent && x.cursor.next?.isSome

/-- Reads a line and the empty lines behind it. -/
def Progress.readLine (x : Progress) (isFolded : Bool) (indent : Nat) : Progress :=
  let startsPlain (c : Cursor) : Bool := !c.next?.any isBlank
  let (line, behind) := x.cursor.span fun d => !isLineBreak d
  let lastBreak := behind.rest.take 1 |>.map keptBreak
  let behind := behind.skip 1
  let (breaks, behind) := readBreaks indent [] behind.place behind.rest
  let next : Progress :=
    { done := x.done ++ x.breaks.map keptBreak ++ line, lastBreak, breaks, cursor := behind }
  if next.goesOn indent then
    let isJoined := isFolded && lastBreak == ['\n'] && startsPlain x.cursor && startsPlain behind
    let between := if isJoined then (if breaks.isEmpty then [' '] else []) else lastBreak
    { next with done := next.done ++ between }
  else next

/-- Reads lines, for as many characters as there can be. -/
def Progress.readLines (isFolded : Bool) (indent : Nat) : Nat → Progress → Progress
  | 0, x => x
  | bound + 1, x =>
    if x.goesOn indent then Progress.readLines isFolded indent bound (x.readLine isFolded indent)
    else x

/-- The text that was read. -/
def Progress.text (x : Progress) (tail : Tail) : List Char :=
  match tail with
  | .strip => x.done
  | .clip => x.done ++ x.lastBreak
  | .keep => x.done ++ x.lastBreak ++ x.breaks.map keptBreak

/-- Reads the block text whose mark is next, inside an indentation. -/
def read (least : Nat) (c : Cursor) : Except DocumentFault (List Char × Cursor) := do
  let isFolded := c.next? = some '>'
  let (tail, depth, c) ← readHeader (c.skip 1)
  let least := max least 1
  let (indent, breaks, c) :=
    match depth with
    | some depth => (least + depth - 1, readBreaks (least + depth - 1) [] c.place c.rest)
    | none =>
      let (deepest, found) := readIndentation 0 [] c.place c.rest
      (max least deepest, found)
  let x := Progress.readLines isFolded indent (c.rest.length + 1) { breaks, cursor := c }
  return (x.text tail, x.cursor)

/-- The text of a block text, for closed examples. -/
def textOf (s : String) : Option String :=
  match read 0 { rest := s.toList } with
  | .ok (text, _) => some (String.ofList text)
  | .error _ => none

example : textOf "|\n a\n  b\n\n" = some "a\n b\n" := by decide

example : textOf ">-\n a\n b\n\n c\n" = some "a b\nc" := by decide

end Bindery.Document.Block
