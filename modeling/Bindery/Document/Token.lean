import Bindery.Document.Cursor

/-!
# Tokens of a document

A document is a row of tokens: brackets and other marks, the beginnings and ends of indented blocks,
names, tags and texts.
-/

namespace Bindery.Document

/-- What a line in front of a document says about it. -/
inductive Directive where
  /-- The first number of the version of the format. -/
  | version (number : Nat)
  /-- A handle and what it abbreviates. -/
  | handle (handle meaning : List Char)
  /-- Something that no one needs to know. -/
  | other
  deriving DecidableEq, Repr

/-- A token. -/
inductive Token where
  /-- A line in front of a document. -/
  | directive (d : Directive)
  /-- The mark in front of a document. -/
  | documentStart
  /-- The mark behind a document. -/
  | documentEnd
  /-- The end of everything. -/
  | streamEnd
  /-- The beginning of an indented list. -/
  | listStart
  /-- The beginning of an indented mapping. -/
  | mappingStart
  /-- The end of an indented list or mapping. -/
  | blockEnd
  /-- The bracket that opens a list. -/
  | openList
  /-- The bracket that closes a list. -/
  | closeList
  /-- The brace that opens a mapping. -/
  | openMapping
  /-- The brace that closes a mapping. -/
  | closeMapping
  /-- The dash in front of an item. -/
  | dash
  /-- The comma between neighbours. -/
  | comma
  /-- The beginning of a key, which is often not written. -/
  | key
  /-- The colon in front of a value. -/
  | colon
  /-- A reference to a named node. -/
  | alias (name : List Char)
  /-- The name of the node that follows. -/
  | anchor (name : List Char)
  /-- The tag of the node that follows: a handle, if it has one, and the rest. -/
  | tag (handle : Option (List Char)) (suffix : List Char)
  /-- A text, with or without quotes. -/
  | text (cs : List Char) (isPlain : Bool)
  deriving DecidableEq, Repr

end Bindery.Document
