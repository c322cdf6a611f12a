import Bindery.Document.Lookahead
import Bindery.Document.Node

/-!
# Composing nodes

Tokens are put together to nodes by a machine that holds the lists and mappings that are still open.
Each of its steps asks for the tokens that it needs and for no more, and a node that is finished
goes to the innermost open list or mapping.
-/

namespace Bindery.Document

/-- How a list or a mapping is written. -/
inductive Shape where
  /-- A list of lines with dashes. -/
  | dashes
  /-- A list of lines with dashes that stand no deeper than their key. -/
  | looseDashes
  /-- A list in brackets. -/
  | brackets
  /-- An indented mapping. -/
  | lines
  /-- A mapping in braces. -/
  | braces
  /-- A mapping of one entry that stands in a list without braces. -/
  | pair
  deriving DecidableEq, Repr

/-- A list or a mapping that is still open. -/
structure Frame where
  /-- How it is written. -/
  shape : Shape
  /-- Its tag. -/
  tag : Tag
  /-- Its name, if it has one. -/
  anchor : Option (List Char)
  /-- The items so far, last first. -/
  items : List Node := []
  /-- The entries so far, last first. -/
  entries : List (Node × Node) := []
  /-- The key whose value comes next. -/
  key : Option Node := none
  /-- Whether the key that comes next stands without a value. -/
  isBare : Bool := false

/-- The finished list or mapping. -/
def Frame.node (f : Frame) : Node :=
  match f.shape with
  | .dashes | .looseDashes | .brackets => .list f.tag f.items.reverse
  | .lines | .braces | .pair => .ofEntries f.tag f.entries.reverse

/-- What comes next. -/
inductive Expecting where
  /-- A node: in a block it may be indented, and behind a key a list may be loose. -/
  | node (inBlock mayBeLoose : Bool)
  /-- Another item or key of what is innermost, or its end. -/
  | more (isFirst : Bool)
  /-- The value of a key. -/
  | value
  /-- The end of what is innermost. -/
  | ending
  /-- Nothing: the node is finished. -/
  | done (n : Node)

/-- A composition under way. -/
structure Composition where
  /-- The tokens still to come. -/
  tokens : Lookahead
  /-- What the handles of tags abbreviate. -/
  handles : List (List Char × List Char)
  /-- The nodes by their names; a node that is still open has a name but cannot be used. -/
  named : List (List Char × Node) := []
  /-- What is open, innermost first. -/
  frames : List Frame := []
  /-- What comes next. -/
  expecting : Expecting

/-- The number of lists and mappings that may stand inside each other. -/
def deepestNesting : Nat := 490

/-- What is said about a node beside its content. -/
structure Properties where
  /-- Its name. -/
  anchor : Option (List Char) := none
  /-- The full name of its tag. -/
  tag : Option (List Char) := none

namespace Properties

/-- Whether the tag is left open. -/
def isUntagged (q : Properties) : Bool := q.tag.all (· == ['!'])

/-- The tag of a list or a mapping. -/
def tagOr (q : Properties) (usual : Tag) : Tag :=
  if q.isUntagged then usual else (q.tag.map Tag.ofName).getD usual

/-- The tag of a text: it is tagged by its form if it is plain or its tag is left open by a mark. -/
def textTag (q : Properties) (cs : List Char) (isPlain : Bool) : Tag :=
  match q.tag with
  | none => if isPlain then .ofPlain cs else .text
  | some ['!'] => .ofPlain cs
  | some name => .ofName name

end Properties

namespace Composition

/-- The next token. -/
def next (m : Composition) : Except DocumentFault (Token × Composition) := do
  let (t, tokens) ← m.tokens.next
  return (t, { m with tokens })

/-- Takes the next token. -/
def take (m : Composition) : Composition := { m with tokens := m.tokens.take }

/-- Goes on with what comes next. -/
def expect (e : Expecting) (m : Composition) : Composition := { m with expecting := e }

/-- Replaces what is innermost. -/
def setInnermost (f : Frame) (m : Composition) : Composition :=
  { m with frames := f :: m.frames.drop 1 }

/-- Gives a finished node to what is innermost. -/
def give (n : Node) (m : Composition) : Composition :=
  match m.frames with
  | [] => m.expect (.done n)
  | f :: _ =>
    match f.shape, f.key with
    | .dashes, _ | .looseDashes, _ | .brackets, _ =>
      (m.setInnermost { f with items := n :: f.items }).expect (.more false)
    | .lines, none | .pair, none => (m.setInnermost { f with key := some n }).expect .value
    | .braces, none =>
      if f.isBare then
        let entries := (n, Node.empty) :: f.entries
        (m.setInnermost { f with entries, isBare := false }).expect (.more false)
      else (m.setInnermost { f with key := some n }).expect .value
    | shape, some k =>
      let f := { f with entries := (k, n) :: f.entries, key := none }
      (m.setInnermost f).expect (if shape = .pair then .ending else .more false)

/-- Names a node. -/
def name (anchor : Option (List Char)) (n : Node) (m : Composition) : Composition :=
  match anchor with
  | some a => { m with named := (a, n) :: m.named }
  | none => m

/-- Opens a list or a mapping. -/
def openFrame (shape : Shape) (q : Properties) (m : Composition) :
    Except DocumentFault Composition := do
  if deepestNesting ≤ m.frames.length then throw .nesting
  let isMapping := shape ∉ [.dashes, .looseDashes, .brackets]
  let f : Frame :=
    { shape, tag := q.tagOr (if isMapping then .mapping else .list), anchor := q.anchor }
  let named := m.name q.anchor (.inner isMapping)
  return { named with frames := f :: m.frames, expecting := .more true }

/-- Closes what is innermost. -/
def close (m : Composition) : Composition :=
  match m.frames with
  | [] => m
  | f :: outer => ({ m with frames := outer }.name f.anchor f.node).give f.node

/-- The full name of a tag. -/
def fullTag (m : Composition) (handle : Option (List Char)) (suffix : List Char) :
    Except DocumentFault (List Char) :=
  match handle with
  | none => .ok suffix
  | some handle =>
    match m.handles.lookup handle with
    | some meaning => .ok (meaning ++ suffix)
    | none => .error .arrangement

/-- Reads what is said about a node: a name, a tag, or both in either order. -/
def readProperties (m : Composition) : Except DocumentFault (Properties × Composition) := do
  let (t, m) ← m.next
  match t with
  | .anchor name => do
    let (t, m) ← m.take.next
    match t with
    | .tag handle suffix => return (⟨some name, some (← m.fullTag handle suffix)⟩, m.take)
    | _ => return (⟨some name, none⟩, m)
  | .tag handle suffix => do
    let (t, m) ← m.take.next
    match t with
    | .anchor name => return (⟨some name, some (← m.fullTag handle suffix)⟩, m.take)
    | _ => return (⟨none, some (← m.fullTag handle suffix)⟩, m)
  | _ => return ({}, m)

/-- A name that is given to a node names no other. -/
def checkAnchor (m : Composition) (q : Properties) : Except DocumentFault Unit :=
  if q.anchor.any fun a => (m.named.lookup a).isSome then .error .composition else .ok ()

/-- Finishes a text. -/
def giveText (q : Properties) (cs : List Char) (isPlain : Bool) (m : Composition) : Composition :=
  let n := Node.text (q.textTag cs isPlain) cs
  (m.name q.anchor n).give n

/-- Reads a node up to its content, or to its end if it is a text. -/
def readNode (inBlock mayBeLoose : Bool) (m : Composition) :
    Except DocumentFault Composition := do
  let (t, m) ← m.next
  if let .alias name := t then
    match m.named.lookup name with
    | some n => return m.take.give n
    | none => throw .composition
  let (q, m) ← m.readProperties
  let (t, m) ← m.next
  match t, inBlock with
  | .dash, _ =>
    if mayBeLoose then
      m.checkAnchor q
      return ← m.openFrame .looseDashes q
    else if q.anchor.isNone ∧ q.tag.isNone then throw .arrangement
    else
      m.checkAnchor q
      return m.giveText q [] (q.isUntagged)
  | .text cs isPlain, _ =>
    m.checkAnchor q
    return m.take.giveText q cs isPlain
  | .openList, _ =>
    m.checkAnchor q
    m.take.openFrame .brackets q
  | .openMapping, _ =>
    m.checkAnchor q
    m.take.openFrame .braces q
  | .listStart, true =>
    m.checkAnchor q
    m.take.openFrame .dashes q
  | .mappingStart, true =>
    m.checkAnchor q
    m.take.openFrame .lines q
  | _, _ =>
    if q.anchor.isNone ∧ q.tag.isNone then throw .arrangement
    else
      m.checkAnchor q
      return m.giveText q [] (q.isUntagged)

/-- Behind a mark: a node, unless one of the tokens comes next that only follow a node. -/
def nodeUnless (isBehindNode : Token → Bool) (inBlock mayBeLoose : Bool) (m : Composition) :
    Except DocumentFault Composition := do
  let (t, m) ← m.next
  return if isBehindNode t then m.give .empty else m.expect (.node inBlock mayBeLoose)

/-- The next item of a list of dashes, or its end. -/
def readDashes (m : Composition) : Except DocumentFault Composition := do
  let (t, m) ← m.next
  match t with
  | .dash => m.take.nodeUnless (fun t => t = .dash ∨ t = .blockEnd) true false
  | .blockEnd => return m.take.close
  | _ => throw .arrangement

/-- The next item of a loose list, or its end, which has no token. -/
def readLooseDashes (m : Composition) : Except DocumentFault Composition := do
  let (t, m) ← m.next
  match t with
  | .dash =>
    m.take.nodeUnless (fun t => t ∈ [.dash, .key, .colon, .blockEnd]) true false
  | _ => return m.close

/-- The next key of an indented mapping, or its end. -/
def readLines (m : Composition) : Except DocumentFault Composition := do
  let (t, m) ← m.next
  match t with
  | .key => m.take.nodeUnless (fun t => t ∈ [.key, .colon, .blockEnd]) true true
  | .blockEnd => return m.take.close
  | _ => throw .arrangement

/-- Takes the comma that must stand between neighbours, unless the first one comes or the end. -/
def readComma (isFirst : Bool) (last : Token) (m : Composition) :
    Except DocumentFault Composition := do
  let (t, m) ← m.next
  if isFirst ∨ t = last then return m
  else if t = .comma then return m.take
  else throw .arrangement

/-- The next item of a list in brackets, or its end. -/
def readBrackets (isFirst : Bool) (m : Composition) : Except DocumentFault Composition := do
  let m ← m.readComma isFirst .closeList
  let (t, m) ← m.next
  match t with
  | .closeList => return m.take.close
  | .key => do
    let m ← m.openFrame .pair {}
    m.take.nodeUnless (fun t => t ∈ [.colon, .comma, .closeList]) false false
  | _ => return m.expect (.node false false)

/-- The next key of a mapping in braces, or its end. -/
def readBraces (isFirst : Bool) (f : Frame) (m : Composition) :
    Except DocumentFault Composition := do
  let m ← m.readComma isFirst .closeMapping
  let (t, m) ← m.next
  match t with
  | .closeMapping => return m.take.close
  | .key => m.take.nodeUnless (fun t => t ∈ [.colon, .comma, .closeMapping]) false false
  | _ => return (m.setInnermost { f with isBare := true }).expect (.node false false)

/-- The value of a key, which may be missing. -/
def readValue (f : Frame) (m : Composition) : Except DocumentFault Composition := do
  let (t, m) ← m.next
  if t = .colon then
    match f.shape with
    | .lines => m.take.nodeUnless (fun t => t ∈ [.key, .colon, .blockEnd]) true true
    | .pair => m.take.nodeUnless (fun t => t ∈ [.comma, .closeList]) false false
    | _ => m.take.nodeUnless (fun t => t ∈ [.comma, .closeMapping]) false false
  else return m.give .empty

/-- One step. -/
def step (m : Composition) : Except DocumentFault Composition :=
  match m.expecting, m.frames with
  | .done _, _ => .ok m
  | .node inBlock mayBeLoose, _ => m.readNode inBlock mayBeLoose
  | .ending, _ => .ok m.close
  | .value, f :: _ => m.readValue f
  | .more isFirst, f :: _ =>
    match f.shape with
    | .dashes => m.readDashes
    | .looseDashes => m.readLooseDashes
    | .brackets => m.readBrackets isFirst
    | .lines => m.readLines
    | .braces => m.readBraces isFirst f
    | .pair => .ok (m.expect .ending)
  | .value, [] | .more _, [] => .error .arrangement

/-- Goes on until the node is finished, for as many steps as there can be. -/
def run : Nat → Composition → Except DocumentFault (Node × Lookahead)
  | 0, _ => .error .arrangement
  | bound + 1, m =>
    match m.expecting with
    | .done n => .ok (n, m.tokens)
    | _ => m.step >>= run bound

end Composition

/-! ## Documents -/

/-- The handles that need no directive. -/
def usualHandles : List (List Char × List Char) := [(['!'], ['!']), (['!', '!'], tagSpace)]

/-- What the directives in front of a document say: the version, if one does, and the handles. -/
structure Prologue where
  /-- Whether a directive told the version. -/
  hasVersion : Bool := false
  /-- What handles abbreviate. -/
  handles : List (List Char × List Char) := []

/-- Takes a directive into account. -/
def Prologue.add (x : Prologue) : Directive → Except DocumentFault Prologue
  | .version number =>
    if x.hasVersion ∨ number ≠ 1 then .error .arrangement else .ok { x with hasVersion := true }
  | .handle handle meaning =>
    if (x.handles.lookup handle).isSome then .error .arrangement
    else .ok { x with handles := (handle, meaning) :: x.handles }
  | .other => .ok x

/-- Reads the directives in front of a document and the mark that must follow them. Every directive
takes a character at least. -/
def readPrologue (x : Prologue) (s : Lookahead) :
    List Char → Except DocumentFault (Prologue × Lookahead)
  | [] => .error .arrangement
  | _ :: bound => do
    let (t, s) ← s.next
    match t with
    | .directive d => readPrologue (← x.add d) s.take bound
    | .documentStart => return (x, s.take)
    | _ => throw .arrangement

/-- Skips the marks behind a document. Every mark takes a character at least. -/
def skipEnds (s : Lookahead) : List Char → Except DocumentFault Lookahead
  | [] => .ok s
  | _ :: bound => do
    let (t, s) ← s.next
    if t = .documentEnd then skipEnds s.take bound else return s

/-- The number of steps that a text of a length can take: a character makes a few tokens at most,
and a token a few steps. -/
def stepBound (length : Nat) : Nat := 32 * (length + 4)

/-- The node of a text that is a single document, if the text is not blank. -/
def nodeOf? (cs : List Char) : Except DocumentFault (Option Node) := do
  let (t, s) ← Lookahead.next { cursor := { rest := cs } }
  let bound := stepBound cs.length
  let start (handles : List (List Char × List Char)) (s : Lookahead) : Composition :=
    { tokens := s, handles, expecting := .node true false }
  let (n, s) ←
    match t with
    | .streamEnd => return none
    | .directive _ | .documentStart => do
      let (x, s) ← readPrologue {} s ('-' :: cs)
      let (t, s) ← s.next
      match t with
      | .directive _ | .documentStart | .documentEnd | .streamEnd => pure (Node.empty, s)
      | _ => (start (x.handles ++ usualHandles) s).run bound
    | _ => (start usualHandles s).run bound
  let s ← skipEnds s cs
  let (t, s) ← s.next
  if t = .streamEnd then return some n
  let _ ← readPrologue {} s ('-' :: cs)
  throw .composition

end Bindery.Document
