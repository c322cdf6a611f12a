import Bindery.Document.Token
import Bindery.Text.Hex

/-!
# Names, tags and directives of a document

What can be said about a node or a document beside its content: names and references to them, tags
with their handles, and the directives in front of a document.
-/

namespace Bindery.Document.Property

open Text

/-- Whether a character may stand in a name. -/
def isNameChar (c : Char) : Bool := c.isAlphanum || c == '-' || c == '_'

/-- Whether a character may stand in a tag as it is. -/
def isTagChar (c : Char) : Bool := c.isAlphanum || "-;/?:@&=+$,_.!~*'()[]".toList.contains c

/-- Goes on with a cursor if a condition holds. -/
def require (condition : Bool) : Except DocumentFault Unit :=
  if condition then .ok () else .error .token

/-- Reads a name, which is not empty. -/
def readName (c : Cursor) : Except DocumentFault (List Char × Cursor) := do
  let (name, c) := c.span isNameChar
  require !name.isEmpty
  return (name, c)

/-- Reads the name behind the mark of a reference or an anchor. -/
def readReference (c : Cursor) : Except DocumentFault (List Char × Cursor) := do
  let (name, c) ← readName (c.skip 1)
  require (endsWord c.next? || c.next?.any fun d =>
    ['?', ':', ',', ']', '\x7d', '%', '@', '\x60'].contains d)
  return (name, c)

/-- The characters that escaped bytes, last first, amount to, in front of others, last first. -/
def decoded (bytes : List UInt8) (done : List Char) : Except DocumentFault (List Char) :=
  match String.fromUTF8? ⟨bytes.reverse.toArray⟩ with
  | some s => .ok (s.toList.reverse ++ done)
  | none => .error .token

/-- The characters of a tag with its escapes resolved, and what follows it. -/
def tagChars (bytes : List UInt8) (done : List Char) :
    List Char → Except DocumentFault (List Char × List Char)
  | '%' :: a :: b :: rest =>
    match hexValue? a, hexValue? b with
    | some high, some low => tagChars ((16 * high + low).toUInt8 :: bytes) done rest
    | _, _ => .error .token
  | c :: rest => do
    let done ← decoded bytes done
    if isTagChar c then tagChars [] (c :: done) rest
    else if c = '%' then .error .token
    else return (done.reverse, c :: rest)
  | [] => do return ((← decoded bytes done).reverse, [])

/-- Reads the characters of a tag, of which there is at least one. -/
def readTagChars (c : Cursor) : Except DocumentFault (List Char × Cursor) := do
  let (cs, rest) ← tagChars [] [] c.rest
  let length := c.rest.length - rest.length
  require (length != 0)
  return (cs, c.skip length)

/-- Reads a handle: a mark, or a name between two of them. -/
def readHandle (c : Cursor) : Except DocumentFault (List Char × Cursor) := do
  require (c.next? == some '!')
  let behind := c.skip 1
  if behind.next? = some ' ' then return (['!'], behind)
  let (name, behind) := behind.span isNameChar
  require (behind.next? == some '!')
  return ('!' :: (name ++ ['!']), behind.skip 1)

/-- Reads the tag whose mark is next. -/
def readTag (c : Cursor) : Except DocumentFault (Token × Cursor) := do
  let behind := c.skip 1
  let (token, c) ←
    if behind.next? = some '<' then do
      let (suffix, c) ← readTagChars (behind.skip 1)
      require (c.next? == some '>')
      pure (Token.tag none suffix, c.skip 1)
    else if endsWord behind.next? then pure (Token.tag none ['!'], behind)
    else do
      let field := behind.rest.takeWhile fun d => !endsField (some d)
      let (handle, c) ← if field.contains '!' then readHandle c else pure (['!'], behind)
      let (suffix, c) ← readTagChars c
      pure (Token.tag (some handle) suffix, c)
  require (endsField c.next?)
  return (token, c)

/-- Reads the number of a version. -/
def readNumber (c : Cursor) : Except DocumentFault (Nat × Cursor) := do
  let (digits, c) := c.span Char.isDigit
  require !digits.isEmpty
  return (digits.foldl (fun n d => 10 * n + (d.toNat - 48)) 0, c)

/-- Reads the directive whose mark is next, up to the end of its line. -/
def readDirective (c : Cursor) : Except DocumentFault (Directive × Cursor) := do
  let (name, c) ← readName (c.skip 1)
  require (endsField c.next?)
  let (directive, c) ←
    if name = "YAML".toList then do
      let (major, c) ← readNumber c.skipSpaces
      require (c.next? == some '.')
      let (_, c) ← readNumber (c.skip 1)
      require (endsField c.next?)
      pure (Directive.version major, c)
    else if name = "TAG".toList then do
      let (handle, c) ← readHandle c.skipSpaces
      require (c.next? == some ' ')
      let (meaning, c) ← readTagChars c.skipSpaces
      require (endsField c.next?)
      pure (Directive.handle handle meaning, c)
    else pure (Directive.other, c.skipLine)
  let c := c.skipSpaces.skipComment
  require (endsLine c.next?)
  return (directive, c.skip 1)

end Bindery.Document.Property
