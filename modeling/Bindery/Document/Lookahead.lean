import Bindery.Document.Block
import Bindery.Document.Plain
import Bindery.Document.Property
import Bindery.Document.Quoted

/-!
# Looking ahead for tokens

Tokens are found one after another and only as far as they are asked for, so that of two faults the
first one counts. How far that is depends on keys: a token may turn out to begin a key by a colon
that comes later, on the same line and near enough. As long as that can still happen to the first
token that is waiting, the search goes on.
-/

namespace Bindery.Document

/-- A token that may turn out to begin a key. -/
structure Candidate where
  /-- The number of brackets around it. -/
  depth : Nat
  /-- The number of tokens before it. -/
  index : Nat
  /-- Whether it must begin a key: it stands where the next key of an indented mapping does. -/
  isRequired : Bool
  /-- Where it begins. -/
  place : Place
  deriving DecidableEq, Repr

/-- The number of characters that may stand in front of a colon from the start of its key on. -/
def keyReach : Nat := 1024

/-- Whether a colon at a place comes too late for a candidate. -/
def Candidate.isStale (k : Candidate) (p : Place) : Bool :=
  k.place.line != p.line || k.place.offset + keyReach < p.offset

/-- A search for tokens. -/
structure Lookahead where
  /-- Where the search goes on. -/
  cursor : Cursor
  /-- The tokens that were found and not yet taken. -/
  waiting : List Token := []
  /-- The number of tokens taken. -/
  taken : Nat := 0
  /-- The tokens that may yet begin a key. -/
  candidates : List Candidate := []
  /-- The indentations of the blocks that are open, innermost first. -/
  indents : List Nat := []
  /-- The number of brackets that are open. -/
  depth : Nat := 0
  /-- Whether a key may begin here. -/
  allowsKey : Bool := true
  /-- Whether the end of everything was found. -/
  isAtEnd : Bool := false

namespace Lookahead

/-- Whether brackets are open. -/
def inBrackets (s : Lookahead) : Bool := s.depth != 0

/-- Finds a token. -/
def push (t : Token) (s : Lookahead) : Lookahead := { s with waiting := s.waiting ++ [t] }

/-- Finds a token, with the cursor behind it. -/
def found (t : Token) (c : Cursor) (s : Lookahead) : Lookahead := { s.push t with cursor := c }

/-- Drops candidates, of which none may be required. -/
def drop (isDropped : Candidate → Bool) (s : Lookahead) : Except DocumentFault Lookahead :=
  if s.candidates.any fun k => isDropped k && k.isRequired then .error .token
  else .ok { s with candidates := s.candidates.filter fun k => !isDropped k }

/-- Drops the candidates for which a colon would come too late. -/
def dropStale (s : Lookahead) : Except DocumentFault Lookahead :=
  s.drop fun k => k.isStale s.cursor.place

/-- Drops the candidate between the innermost brackets. -/
def dropInnermost (s : Lookahead) : Except DocumentFault Lookahead :=
  s.drop fun k => k.depth == s.depth

/-- Notes that the next token may begin a key. -/
def mayBeginKey (s : Lookahead) : Except DocumentFault Lookahead := do
  if !s.allowsKey then return s
  let s ← s.dropInnermost
  let candidate : Candidate :=
    { depth := s.depth
      index := s.taken + s.waiting.length
      isRequired := !s.inBrackets && s.indents.head? == some s.cursor.place.column
      place := s.cursor.place }
  return { s with candidates := candidate :: s.candidates }

/-- Closes blocks as long as they are indented deeper than a class of columns allows. -/
def closeWhile (isDeeper : Nat → Bool) (s : Lookahead) : Lookahead :=
  let closed := s.indents.takeWhile isDeeper
  { s with
    indents := s.indents.drop closed.length
    waiting := s.waiting ++ closed.map fun _ => .blockEnd }

/-- Closes the blocks that are indented deeper than a column; inside brackets there are none. -/
def closeTo (column : Nat) (s : Lookahead) : Lookahead :=
  if s.inBrackets then s else s.closeWhile (column < ·)

/-- Closes all blocks. -/
def closeAll (s : Lookahead) : Lookahead := if s.inBrackets then s else s.closeWhile fun _ => true

/-- Whether a column is deeper than the innermost block. -/
def isDeeper (s : Lookahead) (column : Nat) : Bool := s.indents.head?.all (· < column)

/-- Opens a block at a column, if it is deeper than the innermost one. -/
def openAt (column : Nat) (t : Token) (s : Lookahead) : Lookahead :=
  if s.isDeeper column then { s.push t with indents := column :: s.indents } else s

/-- Skips spaces, comments and line breaks, and tells whether a line was broken. -/
def skipIgnored (inComment isBroken : Bool) (p : Place) : List Char → Cursor × Bool
  | [] => (⟨[], p⟩, isBroken)
  | c :: rest =>
    if isLineBreak c then skipIgnored false true (p.after c) rest
    else if inComment || c == '#' then skipIgnored true isBroken (p.after c) rest
    else if c = ' ' then skipIgnored false isBroken (p.after c) rest
    else (⟨c :: rest, p⟩, isBroken)

/-- Goes on to where the next token begins. -/
def approach (s : Lookahead) : Lookahead :=
  let isMarked := s.cursor.place.offset = 0 ∧ s.cursor.next? = some encodingMark
  let c := if isMarked then s.cursor.skip 1 else s.cursor
  let (c, isBroken) := skipIgnored false false c.place c.rest
  { s with cursor := c, allowsKey := s.allowsKey || (isBroken && !s.inBrackets) }

/-! ## Kinds of tokens -/

/-- Finds the end of everything. -/
def findEnd (s : Lookahead) : Except DocumentFault Lookahead := do
  let s ← s.closeAll.dropInnermost
  return { s.push .streamEnd with allowsKey := false, candidates := [], isAtEnd := true }

/-- Finds a directive. -/
def findDirective (s : Lookahead) : Except DocumentFault Lookahead := do
  let s ← s.closeAll.dropInnermost
  let (directive, c) ← Property.readDirective s.cursor
  return { s.found (.directive directive) c with allowsKey := false }

/-- Finds a mark between documents. -/
def findMark (t : Token) (s : Lookahead) : Except DocumentFault Lookahead := do
  let s ← s.closeAll.dropInnermost
  return { s.found t (s.cursor.skip 3) with allowsKey := false }

/-- Finds an opening bracket. -/
def findOpening (t : Token) (s : Lookahead) : Except DocumentFault Lookahead := do
  let s ← s.mayBeginKey
  return { s.found t (s.cursor.skip 1) with depth := s.depth + 1, allowsKey := true }

/-- Finds a closing bracket. -/
def findClosing (t : Token) (s : Lookahead) : Except DocumentFault Lookahead := do
  let s ← s.dropInnermost
  return { s.found t (s.cursor.skip 1) with depth := s.depth - 1, allowsKey := false }

/-- Finds a comma. -/
def findComma (s : Lookahead) : Except DocumentFault Lookahead := do
  let s ← s.dropInnermost
  return { s.found .comma (s.cursor.skip 1) with allowsKey := true }

/-- Outside of brackets, opens a block where a key may begin. -/
def beginBlock (t : Token) (s : Lookahead) : Except DocumentFault Lookahead :=
  if s.inBrackets then .ok s
  else if s.allowsKey then .ok (s.openAt s.cursor.place.column t)
  else .error .token

/-- Finds the dash in front of an item. -/
def findDash (s : Lookahead) : Except DocumentFault Lookahead := do
  let s ← (← s.beginBlock .listStart).dropInnermost
  return { s.found .dash (s.cursor.skip 1) with allowsKey := true }

/-- Finds the mark in front of a key. -/
def findKey (s : Lookahead) : Except DocumentFault Lookahead := do
  let s ← (← s.beginBlock .mappingStart).dropInnermost
  return { s.found .key (s.cursor.skip 1) with allowsKey := !s.inBrackets }

/-- Puts tokens in front of the token of a number. -/
def insertAt (index : Nat) (ts : List Token) (s : Lookahead) : Lookahead :=
  let (before, behind) := s.waiting.splitAt (index - s.taken)
  { s with waiting := before ++ ts ++ behind }

/-- Finds the colon in front of a value: what may have been a key is one. -/
def findColon (s : Lookahead) : Except DocumentFault Lookahead := do
  match s.candidates.find? fun k => k.depth == s.depth with
  | some k =>
    let isBlock := !s.inBrackets && s.isDeeper k.place.column
    let s := s.insertAt k.index (if isBlock then [.mappingStart, .key] else [.key])
    return { s.found .colon (s.cursor.skip 1) with
      candidates := s.candidates.filter fun other => other.depth != s.depth
      indents := if isBlock then k.place.column :: s.indents else s.indents
      allowsKey := false }
  | none =>
    let s ← (← s.beginBlock .mappingStart).dropInnermost
    return { s.found .colon (s.cursor.skip 1) with allowsKey := !s.inBrackets }

/-- Finds a token that may begin a key and behind which no key may begin. -/
def findNode (s : Lookahead) (read : Cursor → Except DocumentFault (Token × Cursor)) :
    Except DocumentFault Lookahead := do
  let s ← s.mayBeginKey
  let (t, c) ← read s.cursor
  return { s.found t c with allowsKey := false }

/-- Finds a block text. -/
def findBlock (s : Lookahead) : Except DocumentFault Lookahead := do
  let s ← s.dropInnermost
  let (text, c) ← Block.read ((s.indents.head?.map (· + 1)).getD 0) s.cursor
  return { s.found (.text (text.flatMap Text.hold) false) c with allowsKey := true }

/-- Finds a plain text. -/
def findPlain (s : Lookahead) : Except DocumentFault Lookahead := do
  let s ← s.mayBeginKey
  let (text, gap) :=
    Plain.read s.inBrackets ((s.indents.head?.map (· + 1)).getD 0) s.cursor
  return { s.found (.text (text.flatMap Text.hold) true) gap.cursor with
    allowsKey := gap.isBroken }

/-- The characters that begin no plain text by themselves. -/
def reserved : List Char :=
  ['-', '?', ':', ',', '[', ']', '\x7b', '\x7d', '#', '&', '*', '!', '|', '>', '\x27', '\x22', '%',
    '@', '\x60']

/-- Whether a plain text begins with a character when another or nothing comes behind it. -/
def beginsPlain (s : Lookahead) (c : Char) (behind : Option Char) : Bool :=
  !(isBlank c || reserved.contains c) ||
    (!endsWord behind && (c == '-' || (!s.inBrackets && (c == '?' || c == ':'))))

/-- Finds the next token, and those that come with it. -/
def find (s : Lookahead) : Except DocumentFault Lookahead := do
  let s ← s.approach.dropStale
  let s := s.closeTo s.cursor.place.column
  let isFirst := s.cursor.place.column = 0
  match s.cursor.rest with
  | [] => s.findEnd
  | c :: rest =>
    let line := c :: rest
    let behind := rest.head?
    let isMark := s.inBrackets || endsWord behind
    if c = '%' ∧ isFirst then s.findDirective
    else if isFirst ∧ beginsWithMark '-' line then s.findMark .documentStart
    else if isFirst ∧ beginsWithMark '.' line then s.findMark .documentEnd
    else if c = '[' then s.findOpening .openList
    else if c = '\x7b' then s.findOpening .openMapping
    else if c = ']' then s.findClosing .closeList
    else if c = '\x7d' then s.findClosing .closeMapping
    else if c = ',' then s.findComma
    else if c = '-' ∧ endsWord behind then s.findDash
    else if c = '?' ∧ isMark then s.findKey
    else if c = ':' ∧ isMark then s.findColon
    else if c = '*' then
      s.findNode fun c => (Property.readReference c).map fun (name, c) => (.alias name, c)
    else if c = '&' then
      s.findNode fun c => (Property.readReference c).map fun (name, c) => (.anchor name, c)
    else if c = '!' then s.findNode Property.readTag
    else if (c = '|' ∨ c = '>') ∧ ¬ s.inBrackets then s.findBlock
    else if c = '\x27' ∨ c = '\x22' then
      s.findNode fun c => (Quoted.read c).map fun (text, c) => (.text text false, c)
    else if s.beginsPlain c behind then s.findPlain
    else throw .token

/-! ## Taking tokens -/

/-- Whether the first token that is waiting may yet begin a key, or none is waiting. -/
def isOpen (s : Lookahead) : Bool :=
  !s.isAtEnd && (s.waiting.isEmpty || s.candidates.any fun k => k.index == s.taken)

/-- Searches until the first token that is waiting is certain. Every search but the last takes a
character at least, so there are no more of them than characters are given. -/
def settleWithin (s : Lookahead) (bound : List Char) : Except DocumentFault Lookahead := do
  if s.isAtEnd then return s
  let s ← if s.waiting.isEmpty then pure s else s.dropStale
  if s.isOpen then
    let s ← s.find
    match bound with
    | [] => return s
    | _ :: bound => s.settleWithin bound
  else return s

/-- Searches until the first token that is waiting is certain. -/
def settle (s : Lookahead) : Except DocumentFault Lookahead := s.settleWithin s.cursor.rest

/-- The next token; behind the end of everything there is no other. -/
def next (s : Lookahead) : Except DocumentFault (Token × Lookahead) := do
  let s ← s.settle
  return (s.waiting.head?.getD .streamEnd, s)

/-- Takes the next token. -/
def take (s : Lookahead) : Lookahead :=
  { s with waiting := s.waiting.drop 1, taken := s.taken + 1 }

end Lookahead

end Bindery.Document
