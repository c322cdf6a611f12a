import Bindery.Declaration.Site
import Bindery.Value.Access

/-!
# Documentation corpus

The library's documentation is extracted beforehand and filed under the full name of the owner and
the signature of the member. Signatures are compared in canonical form, so that blanks around the
parts of a parameter list do not matter. Documentation of a type itself is filed under the type and
the empty signature.
-/

namespace Bindery

/-- The key of a piece of documentation. -/
structure CorpusKey where
  /-- The full name of the enclosing type or namespace. -/
  owner : String
  /-- The canonical signature of the member. -/
  signature : String
  deriving DecidableEq, Repr

/-- Documentation of one module, in the order in which keys were first filed. -/
structure Corpus where
  /-- The pieces of documentation under their keys. -/
  entries : List (CorpusKey × String) := []
  deriving DecidableEq, Repr

namespace Corpus

open Text

/-- The canonical form of the part of a signature behind the opening parenthesis. -/
def canonicalParameters (rest : List Char) : List Char :=
  let parts := (cut (· == ',') (beforeLast ')' rest)).filter fun p => strip p ≠ []
  joinWith [',', ' '] (parts.map TypeSpelling.normalChars)

/-- The canonical form of a signature. -/
def canonicalChars (signature : List Char) : List Char :=
  match splitFirst '(' signature with
  | (_, none) => strip signature
  | (name, some rest) => strip name ++ '(' :: (canonicalParameters rest ++ [')'])

/-- The canonical form of a signature. -/
def canonicalSignature (signature : String) : String :=
  String.ofList (canonicalChars signature.toList)

example : canonicalSignature " f ( int ,const  QString & ) const" = "f(int, const QString&)" := by
  decide

/-- Files a text under a key; a key that is there already keeps its place. -/
def fileUnder (key : CorpusKey) (text : String) :
    List (CorpusKey × String) → List (CorpusKey × String)
  | [] => [(key, text)]
  | (k, t) :: rest => if k = key then (k, text) :: rest else (k, t) :: fileUnder key text rest

/-- The key and the text of a raw entry. Entries that are no mapping or have no text are skipped;
an entry without a signature is filed under its member, and without either under the type. -/
def entryOf? (entry : Value) : Option (CorpusKey × String) :=
  match entry with
  | .mapping es =>
    let part (key : String) : Value := (es.lookup key).getD .null
    if (part "text").isGiven then
      let owner := (part "type").displayOr ""
      let signature := if part "signature" = .null then (part "member").displayOr ""
        else (part "signature").display
      some (⟨owner, canonicalSignature signature⟩,
        String.ofList (strip (part "text").display.toList))
    else none
  | _ => none

/-- Files a list of raw entries. -/
def addEntries (c : Corpus) (entries : List Value) : Corpus :=
  let file (filed : List (CorpusKey × String)) (e : CorpusKey × String) := fileUnder e.1 e.2 filed
  ⟨(entries.filterMap entryOf?).foldl file c.entries⟩

/-- Files the raw entries that a value lists, if it is given. -/
def addValue (c : Corpus) (entries : Value) : Except Fault Corpus :=
  entries.elementsIfGiven.map c.addEntries

/-- The documentation of a member. -/
def lookup (c : Corpus) (owner signature : String) : Option String :=
  c.entries.lookup ⟨owner, canonicalSignature signature⟩

/-- The documentation of a member that is named by any values: only a text is a signature, and what
is no text owns nothing. -/
def find (c : Corpus) (owner signature : Value) : Except Fault (Option String) :=
  match signature, owner with
  | .text signature, .text owner => .ok (c.lookup owner signature)
  | .text _, owner => if owner.isSimple then .ok none else .error .wrongKind
  | v, _ => if v.isSimple then .error .wrongKind else .error (.noSuchPart v.kindWord "strip")

/-- Whether a declaration is documented as a member only. -/
def isMemberOnly (f : Form) : Bool := f.signature?.isSome || f.isEvent

/-- The documentation of the declaration at a site: as a member of its owner, or else, unless it is
something callable or an event, as a type of its own. The owner must have a full name. -/
def lookupAt (c : Corpus) (s : Site) (l : Label) : Except Fault (Option String) :=
  if Chain.isHeaderNamed s.scope then
    match c.find (.text s.owner) l.signature with
    | .ok none =>
      .ok (if isMemberOnly l.form then none else c.lookup (s.chain l).qualifiedHeaderName "")
    | found => found
  else .error .wrongKind

/-- Reads the document of a corpus file. -/
def ofDocument (document : Value) : Except Fault Corpus :=
  ((document.orElse (.mapping [])).entry "entries").bind (addValue {})

end Corpus

end Bindery
