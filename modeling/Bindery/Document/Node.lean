import Bindery.Document.Schema

/-!
# Nodes of a document

A document is a tree of nodes: texts, lists and mappings, each with its tag. The value of a document
is found level by level from the top, so that of two faults the one higher up counts. Whether a list
or a mapping is what its tag asks for is found out with what is inside of it. Values have texts as
keys, so a document with a key of another kind, such as a number, has no value.
-/

namespace Bindery.Document

/-- A node. -/
inductive Node where
  /-- A text. -/
  | text (tag : Tag) (cs : List Char)
  /-- A list. -/
  | list (tag : Tag) (items : List Node)
  /-- A mapping, by its keys and values. -/
  | mapping (tag : Tag) (entries : List (Node × Node))
  /-- A mapping with a merging key under which nothing can be taken over. -/
  | torn (tag : Tag)
  /-- A reference to a list or a mapping from inside of it. -/
  | inner (isMapping : Bool)

namespace Node

/-- The node of nothing at all. -/
def empty : Node := .text .null []

/-- The tag. -/
def tag : Node → Tag
  | text tag _ | list tag _ | mapping tag _ | torn tag => tag
  | inner isMapping => if isMapping then .mapping else .list

/-- The node under another tag. -/
def retag (tag : Tag) : Node → Node
  | text _ cs => text tag cs
  | list _ items => list tag items
  | mapping _ entries => mapping tag entries
  | torn _ => torn tag
  | inner isMapping => inner isMapping

/-! ## Merging -/

/-- The entries of a mapping. -/
def entries? : Node → Option (List (Node × Node))
  | mapping _ entries => some entries
  | inner true => some []
  | _ => none

/-- The entries that a mapping takes over from what stands under a merging key: those of a mapping,
or of the mappings in a list, the last one first. -/
def merged? : Node → Option (List (Node × Node))
  | list _ items => (items.reverse.mapM entries?).map List.flatten
  | inner _ => some []
  | n => n.entries?

/-- The entries taken over by those with merging keys, which come before all others. -/
def takenOver? : List (Node × Node) → Option (List (Node × Node))
  | [] => some []
  | (k, v) :: rest =>
    if k.tag = .merge then do return (← merged? v) ++ (← takenOver? rest) else takenOver? rest

/-- The entry as it stands in its mapping, if it is no merging one. -/
def ownEntry? : Node × Node → Option (Node × Node)
  | (k, v) =>
    if k.tag = .merge then none else some (if k.tag = .default then k.retag .text else k, v)

/-- The text that stands for a mapping where a text is asked for: the one under its default key. -/
def defaultText? (entries : List (Node × Node)) : Option (List Char) :=
  (entries.find? fun e => e.1.tag = .default).bind fun e =>
    match e.2 with
    | text _ cs => some cs
    | _ => none

/-- The node of a mapping with the given entries, or of the text that stands for it. -/
def ofEntries (tag : Tag) (entries : List (Node × Node)) : Node :=
  match if tag.isCollection then none else defaultText? entries, takenOver? entries with
  | some cs, _ => text tag cs
  | none, some taken => mapping tag (taken ++ entries.filterMap ownEntry?)
  | none, none => torn tag

/-! ## Faults -/

/-- A node is what its tag asks for, as far as can be seen without looking inside. -/
def check : Node → Except DocumentFault Unit
  | text tag cs => if tag.isCollection then .ok () else (tag.valueOf cs).map fun _ => ()
  | n => if n.tag.isCollection then .ok () else .error .content

/-- A node has what a key must have: it is no list and no mapping. -/
def checkKey (n : Node) : Except DocumentFault Unit := do
  n.check
  if n.tag.isCollection then throw .content

/-- Checks a key and its value. -/
def checkEntry : Node × Node → Except DocumentFault Unit
  | (k, v) => do
    k.checkKey
    v.check

/-- Checks a mapping that stands for a pair. -/
def checkPair : Node → Except DocumentFault (List Node)
  | mapping _ [(k, v)] => do
    k.check
    v.check
    return [k, v]
  | _ => .error .content

/-- Checks the nodes right inside of a node, keys before their values, and gives those whose insides
are still to be checked. -/
def checkInside : Node → Except DocumentFault (List Node)
  | list .list items => do
    items.forM check
    return items
  | list .pairs items => (items.mapM checkPair).map List.flatten
  | mapping .mapping entries | mapping .set entries => do
    entries.forM checkEntry
    return entries.map Prod.snd
  | inner _ => .ok []
  | n => if n.tag.isCollection then .error .content else .ok []

/-- Checks what is inside of nodes, level by level, down to a depth. -/
def checkLevels : Nat → List Node → Except DocumentFault Unit
  | 0, _ => .ok ()
  | depth + 1, ns => do
    let inside ← ns.mapM checkInside
    if inside.flatten.isEmpty then return () else checkLevels depth inside.flatten

/-! ## Values -/

/-- The key that a node makes. Values have texts as keys, so nothing else is taken for one. -/
def key : Node → Except DocumentFault String
  | text .text cs => .ok (String.ofList cs)
  | _ => .error .key

mutual

/-- The value of a node. -/
def value (n : Node) : Except DocumentFault Value :=
  match n with
  | .text tag cs => tag.valueOf cs
  | .list _ items => (itemValues items).map .list
  | .mapping _ entries => (entryValues entries []).map .mapping
  | .torn _ | .inner _ => .ok .null
termination_by structural n

/-- The values of the items of a list. -/
def itemValues (ns : List Node) : Except DocumentFault (List Value) :=
  match ns with
  | [] => .ok []
  | n :: ns => do return (← value n) :: (← itemValues ns)
termination_by structural ns

/-- The entries of a mapping written one after another. -/
def entryValues (es : List (Node × Node)) (written : Entries) : Except DocumentFault Entries :=
  match es with
  | [] => .ok written
  | (k, v) :: es => do entryValues es (Entries.put (← key k) (← value v) written)
termination_by structural es

end

example : (mapping .mapping [(text .int ['1'], text .text ['a'])]).value = .error .key := rfl

end Node

end Bindery.Document
