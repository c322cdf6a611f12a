import Bindery.Template.Column
import Bindery.Template.Part

/-!
# Templates of file names

A template is a text with fields in braces; a brace that is meant as such is written twice. A field
names a setting, may go on to a part of it by position or by name, may ask for its quoted form, and
may lay it out in a column, whose description may hold fields of its own. Fields are filled from
left to right, and the first one that cannot be filled, or the first place that is no proper field,
stops the filling.
-/

namespace Bindery.Template

open Text

/-- The brace that opens a field. -/
def openBrace : Char := '\x7b'

/-- The brace that closes a field. -/
def closeBrace : Char := '\x7d'

/-- A part of a template. -/
inductive Piece where
  /-- A character that stands for itself. -/
  | literal (c : Char)
  /-- A field: what it names, the conversion it asks for, and how it is laid out. -/
  | field (name : List Char) (conversion : Option Char) (layout : List Char)
  /-- A place where no field can be read. -/
  | broken
  deriving DecidableEq, Repr

/-- What is being read. -/
inductive Reading where
  /-- Text outside of fields. -/
  | outside
  /-- The name of a field, read so far in reverse; inside a bracket nothing ends it. -/
  | name (read : List Char) (bracketed : Bool)
  /-- The mark of a conversion. -/
  | conversion (name : List Char)
  /-- What follows the mark of a conversion, behind the rest of what holds it. -/
  | converted (name : List Char) (mark : Char) (held : Nat)
  /-- The layout, read so far in reverse, with the number of braces that are still open. -/
  | layout (name : List Char) (mark : Option Char) (read : List Char) (depth : Nat)

/-- Reads the pieces of a template, up to the first place that is broken. -/
def pieces : Reading → List Char → List Piece
  | .outside, [] => []
  | .outside, '\x7b' :: '\x7b' :: cs => .literal openBrace :: pieces .outside cs
  | .outside, '\x7d' :: '\x7d' :: cs => .literal closeBrace :: pieces .outside cs
  | .outside, c :: cs =>
    if c = openBrace ∧ cs ≠ [] then pieces (.name [] false) cs
    else if c = openBrace ∨ c = closeBrace then [.broken]
    else .literal c :: pieces .outside cs
  | .name read bracketed, c :: cs =>
    if bracketed then pieces (.name (c :: read) (c ≠ ']')) cs
    else if c = openBrace then [.broken]
    else if c = closeBrace then .field read.reverse none [] :: pieces .outside cs
    else if c = ':' then pieces (.layout read.reverse none [] 1) cs
    else if c = '!' then pieces (.conversion read.reverse) cs
    else pieces (.name (c :: read) (c = '[')) cs
  | .conversion name, c :: cs =>
    pieces (.converted name c (if c = Text.mark then 2 else 0)) cs
  | .converted name mark (held + 1), _ :: cs => pieces (.converted name mark held) cs
  | .converted name mark 0, c :: cs =>
    if c = closeBrace then .field name (some mark) [] :: pieces .outside cs
    else if c = ':' then pieces (.layout name (some mark) [] 1) cs
    else [.broken]
  | .layout name mark read depth, c :: cs =>
    if c = openBrace then pieces (.layout name mark (c :: read) (depth + 1)) cs
    else if c = closeBrace ∧ depth ≤ 1 then
      .field name mark read.reverse :: pieces .outside cs
    else if c = closeBrace then pieces (.layout name mark (c :: read) (depth - 1)) cs
    else pieces (.layout name mark (c :: read) depth) cs
  | _, [] => [.broken]
termination_by structural _ cs => cs

/-! ## What a field names -/

/-- The position that a text writes, if it writes one. What begins with a number that is too large
is refused, whatever follows. -/
def position? (cs : List Char) : Except Fault (Option Nat) :=
  (leadingNumber cs).map fun (n, rest) => if rest.isEmpty then n else none

/-- Goes on from a part as the rest of a field's name says. -/
def pick (found : Part) : List Char → Except Fault Part
  | [] => .ok found
  | '.' :: cs =>
    let name := cs.takeWhile fun c => c ≠ '.' && c ≠ '['
    match _behind : cs.dropWhile fun c => c ≠ '.' && c ≠ '[' with
    | rest =>
      if name.isEmpty then .error .malformedText
      else
        match found.named (String.ofList name) with
        | .ok part => pick part rest
        | .error fault => .error fault
  | '[' :: cs =>
    let inside := cs.takeWhile (· ≠ ']')
    match _behind : cs.dropWhile (· ≠ ']') with
    | [] => .error .malformedText
    | _ :: rest =>
      if inside.isEmpty then .error .malformedText
      else
        match position? inside with
        | .error fault => .error fault
        | .ok position =>
          match found.at? ((position.map .position).getD (.key inside)) with
          | .ok part => pick part rest
          | .error fault => .error fault
  | _ => .error .malformedText
termination_by cs => cs.length
decreasing_by
  · have shorter := (List.dropWhile_suffix (l := cs) fun c => c ≠ '.' && c ≠ '[').length_le
    rw [_behind] at shorter
    simp
    omega
  · have shorter := (List.dropWhile_suffix (l := cs) (· ≠ ']')).length_le
    rw [_behind] at shorter
    simp at shorter ⊢
    omega

/-- What a field names. There is one setting; nothing is given by position. -/
def resolve (setting : String) (value : List Char) (name : List Char) : Except Fault Part :=
  let first := name.takeWhile fun c => c ≠ '.' && c ≠ '['
  let rest := name.dropWhile fun c => c ≠ '.' && c ≠ '['
  match position? first with
  | .error fault => .error fault
  | .ok (some _) => .error .outOfRange
  | .ok none =>
    if first.isEmpty then .error .outOfRange
    else if first = setting.toList then pick (.text value) rest
    else .error (.missingKey (String.ofList first))

/-- Converts a part as its mark asks: to its writing, or to its quoted form, which may have to do
with ASCII characters alone. -/
def convert (mark : Option Char) (part : Part) : Except Fault Part :=
  match mark with
  | none => .ok part
  | some 's' => .ok (.text part.display)
  | some 'r' => .ok (.text part.displayQuoted)
  | some 'a' => .ok (.text ((codes part.displayQuoted).flatMap fun n =>
      if n < 0x80 then [Char.ofNat n] else codeEscape n))
  | some _ => .error .malformedText

/-- Lays a part out as a description says. Only texts, numbers and truth values can be laid out. -/
def layOut (part : Part) (layout : List Char) : Except Fault (List Char) :=
  match part, layout with
  | part, [] => .ok part.display
  | .text cs, layout => do (← Column.ofChars false layout).layText cs
  | .number n, layout => do (← Column.ofChars true layout).layNumber n
  | .truth b, layout => do (← Column.ofChars true layout).layNumber (if b then 1 else 0)
  | _, _ => .error .wrongKind

/-! ## Filling -/

/-- Fills the pieces of a template, given how the layouts of fields are filled. -/
def fillPieces (fillLayout : List Char → Except Fault (List Char)) (setting : String)
    (value : List Char) : List Piece → Except Fault (List Char)
  | [] => .ok []
  | .literal c :: rest => (fillPieces fillLayout setting value rest).map (c :: ·)
  | .broken :: _ => .error .malformedText
  | .field name mark layout :: rest => do
    let found ← resolve setting value name
    let converted ← convert mark found
    let layout ← if openBrace ∈ layout then fillLayout layout else .ok layout
    return (← layOut converted layout) ++ (← fillPieces fillLayout setting value rest)

/-- Fills a template that may hold fields inside fields to the given depth. -/
def fillTo (setting : String) (value : List Char) : Nat → List Char → Except Fault (List Char)
  | 0, _ => .error .malformedText
  | depth + 1, cs =>
    fillPieces (fillTo setting value depth) setting value (pieces .outside cs)

/-- How deep fields may be nested. -/
def nesting : Nat := 2

/-- Fills a template with the one setting that it may name. -/
def fill (setting value template : String) : Except Fault String :=
  (fillTo setting value.toList nesting template.toList).map String.ofList

end Bindery.Template
