import Bindery.Number.Decimal
import Bindery.Text.CodePoint
import Bindery.Text.Hex
import Bindery.Text.Quoted
import Bindery.Value.Basic

/-!
# Reading messages

A message is a value on one line in the JSON format. It is read in two walks: one finds the tokens,
and the other puts them together. Numbers with a point or an exponent are read to binary64
precision, whole numbers exactly, and the two infinite numbers have names. When a mapping repeats a
key the last value counts, at the place of the first.
-/

namespace Bindery.Message

open Text

/-! ## Tokens -/

/-- A token. -/
inductive Token where
  /-- The bracket that opens a list. -/
  | openList
  /-- The bracket that closes a list. -/
  | closeList
  /-- The brace that opens a mapping. -/
  | openMapping
  /-- The brace that closes a mapping. -/
  | closeMapping
  /-- The comma between neighbours. -/
  | comma
  /-- The colon between a key and its value. -/
  | colon
  /-- A text, by the characters it stands for. -/
  | text (cs : List Char)
  /-- A number or a name, by its characters. -/
  | word (cs : List Char)
  deriving DecidableEq, Repr

/-- The token of a single character. -/
def Token.ofChar? : Char → Option Token
  | '[' => some .openList
  | ']' => some .closeList
  | '\x7b' => some .openMapping
  | '\x7d' => some .closeMapping
  | ',' => some .comma
  | ':' => some .colon
  | _ => none

/-- Whether a character may stand between tokens. -/
def isSpacing (c : Char) : Bool := c == ' ' || c == '\t' || c == '\n' || c == '\r'

/-- The character that an escape letter stands for. -/
def letterEscape? (c : Char) : Option Char :=
  [('n', '\n'), ('t', '\t'), ('r', '\r'), ('b', '\x08'), ('f', '\x0c'), ('/', '/'),
    (doubleQuote, doubleQuote), (backslash, backslash)].lookup c

/-- Adds an escaped code point to a text, last first: the second half of a pair joins the first, if
that comes right before it. What holds a code point is the same from both ends. -/
def addCode (n : Nat) : List Char → List Char
  | [] => ofCode n
  | c :: done =>
    match pair? (codeOf [c]) n with
    | some whole => hold whole ++ done
    | none => ofCode n ++ c :: done

/-- What is being read. -/
inductive Scanning where
  /-- Nothing: a token may begin. -/
  | between
  /-- A word, read so far in reverse. -/
  | word (read : List Char)
  /-- A text in quotes, read so far in reverse. -/
  | quoted (read : List Char)
  /-- What follows a backslash. -/
  | escape (read : List Char)
  /-- The digits of a code point, read so far in reverse. -/
  | code (read digits : List Char)

/-- The tokens after taking a character at a place where a token may begin, last first, and what is
then being read. -/
def begin (done : List Token) (c : Char) : Scanning × List Token :=
  match Token.ofChar? c with
  | some token => (.between, token :: done)
  | none =>
    if isSpacing c then (.between, done)
    else if c = doubleQuote then (.quoted [], done)
    else (.word [c], done)

/-- One step of the walk. -/
def advance (c : Char) (done : List Token) : Scanning → Option (Scanning × List Token)
  | .between => some (begin done c)
  | .word read =>
    if (Token.ofChar? c).isSome || isSpacing c then some (begin (.word read.reverse :: done) c)
    else some (.word (c :: read), done)
  | .quoted read =>
    if c = doubleQuote then some (.between, .text read.reverse :: done)
    else if c = backslash then some (.escape read, done)
    else if c.toNat < 0x20 then none
    else some (.quoted (hold c ++ read), done)
  | .escape read =>
    if c = 'u' then some (.code read [], done)
    else (letterEscape? c).map fun meant => (.quoted (meant :: read), done)
  | .code read digits =>
    if (hexValue? c).isNone then none
    else if digits.length < 3 then some (.code read (c :: digits), done)
    else
      let n := (ofHex? (c :: digits).reverse).getD 0
      some (.quoted (addCode n read), done)

/-- The tokens that the rest of a message adds. -/
def tokens (done : List Token) (state : Scanning) : List Char → Option (List Token)
  | [] =>
    match state with
    | .between => some done.reverse
    | .word read => some (.word read.reverse :: done).reverse
    | _ => none
  | c :: rest => do
    let (state, done) ← advance c done state
    tokens done state rest

/-! ## Words -/

/-- Whether a number is written as messages have it: a whole part without idle zeros, without a plus
sign, and a digit behind the point. -/
def isNumber (x : Decimal) : Bool :=
  x.sign != some '+' && x.fraction != some [] && !x.whole.isEmpty &&
    (x.whole.head? != some '0' || x.whole == ['0'])

/-- The values that have a name. -/
def named : List (String × Value) :=
  [("null", .null), ("true", .bool true), ("false", .bool false),
    ("Infinity", .float (.ofRank false Binary64.topRank)),
    ("-Infinity", .float (.ofRank true Binary64.topRank))]

/-- The value of a word. -/
def ofWord? (cs : List Char) : Option Value :=
  match named.lookup (String.ofList cs) with
  | some v => some v
  | none =>
    ((Decimal.ofChars? Char.isDigit cs).filter isNumber).map fun x =>
      if x.isWhole then .int x.toInt else .float x.toFloat

/-! ## Arrangement -/

/-- A list or a mapping that is still open. -/
inductive Frame where
  /-- A list, by the items before the one that is being read, in reverse. -/
  | list (before : List Value)
  /-- A mapping, by the entries so far and the key whose value is being read. -/
  | mapping (entries : Entries) (key : String)

/-- What may come next. -/
inductive Expecting where
  /-- A value; if its list was just opened, the list may also end. -/
  | value (isFresh : Bool)
  /-- A key after some entries; if its mapping was just opened, the mapping may also end. -/
  | key (entries : Entries) (isFresh : Bool)
  /-- The colon behind a key. -/
  | colon (entries : Entries) (key : String)
  /-- What follows a value. -/
  | next (v : Value)

/-- Where a token leads to: what is then open, innermost first, and what may come next. -/
def place (frames : List Frame) (t : Token) : Expecting → Option (List Frame × Expecting)
  | .value isFresh =>
    match t, isFresh, frames with
    | .openList, _, _ => some (.list [] :: frames, .value true)
    | .openMapping, _, _ => some (frames, .key [] true)
    | .text cs, _, _ => some (frames, .next (.text (String.ofList cs)))
    | .word cs, _, _ => (ofWord? cs).map fun v => (frames, .next v)
    | .closeList, true, _ :: outer => some (outer, .next (.list []))
    | _, _, _ => none
  | .key entries isFresh =>
    match t, isFresh with
    | .text cs, _ => some (frames, .colon entries (String.ofList cs))
    | .closeMapping, true => some (frames, .next (.mapping entries))
    | _, _ => none
  | .colon entries key =>
    if t = .colon then some (.mapping entries key :: frames, .value false) else none
  | .next v =>
    match t, frames with
    | .comma, .list before :: outer => some (.list (v :: before) :: outer, .value false)
    | .closeList, .list before :: outer => some (outer, .next (.list (v :: before).reverse))
    | .comma, .mapping entries key :: outer => some (outer, .key (entries.put key v) false)
    | .closeMapping, .mapping entries key :: outer =>
      some (outer, .next (.mapping (entries.put key v)))
    | _, _ => none

/-- The value that tokens amount to. -/
def arrange (frames : List Frame) (expecting : Expecting) : List Token → Option Value
  | [] =>
    match frames, expecting with
    | [], .next v => some v
    | _, _ => none
  | t :: rest => do
    let (frames, expecting) ← place frames t expecting
    arrange frames expecting rest

end Bindery.Message

namespace Bindery

/-- The value of a message, if it is one. -/
def Value.ofMessage? (message : String) : Option Value := do
  Message.arrange [] (.value false) (← Message.tokens [] .between message.toList)

end Bindery
