import Bindery.Declaration.Site

/-!
# Records of declarations

The processed tree is written as records of the same kind as those the parser dumps. A record says
what the binding's emission needs: names and treatment first, and only what differs from the
default.
-/

namespace Bindery.Decl

/-- The record of a parameter. -/
def parameterRecord (p : Parameter) : Value :=
  .mapping [("name", .text p.name), ("type", .text p.type)]

/-- The entry, if the condition holds. -/
def entryIf (condition : Bool) (key : String) (value : Value) : Entries :=
  if condition then [(key, value)] else []

/-- The entries that only some kinds of declarations have. `sourceName` is the current name of an
event's source. -/
def formEntries (sourceName : Option Value) : Form → Entries
  | .classType traits =>
    ("type_kind", .text (if traits.isValue then "value" else "reference")) ::
      entryIf (!traits.bases.isEmpty) "bases" (.list (traits.bases.map Value.text))
  | .method s traits =>
    [("return_type", .text s.returnType), ("parameters", .list (s.parameters.map parameterRecord))]
      ++ entryIf (traits.operator != .plain) "operator" (.text traits.operator.word)
  | .function s | .delegate s =>
    [("return_type", .text s.returnType), ("parameters", .list (s.parameters.map parameterRecord))]
  | .event adapter =>
    [("synthesized", .bool true), ("origin", adapter.origin)] ++
      (match adapter.source, sourceName with
        | some _, some name => [("source", name)]
        | _, _ => [])
  | .enumItem value => entryIf (value != .null) "value" value
  | _ => []

/-- The entries of a label. -/
def labelEntries (sourceName : Option Value) (l : Label) : Entries :=
  [("kind", .text l.form.word), ("name", l.name),
    ("generation_kind", .text l.treatment.word)] ++
  entryIf (!l.headerName.alike l.name) "original_name" l.headerName ++
  entryIf l.isSuppressed "explicitly_ignored" (.bool true) ++
  [("access", .text l.access.word)] ++
  entryIf l.comment.isGiven "comment" l.comment ++
  formEntries sourceName l.form

/-- The key under which a record lists its members. -/
def membersKey (f : Form) : String := if f.isEnumeration then "items" else "declarations"

mutual

/-- The record of a declaration with everything below it. `sourceName` gives the current name of
the source of an event by its address. -/
def toRecord (sourceName : List Nat → EventSource → Option Value) (d : Decl)
    (address : List Nat) : Value :=
  match d with
  | node l ms =>
    let name := l.form.adapter?.bind fun a => a.source.bind (sourceName address)
    .mapping (labelEntries name l ++
      entryIf (!ms.isEmpty) (membersKey l.form) (.list (toRecords sourceName ms address 0)))
termination_by structural d

/-- The records of a list of declarations whose first is the `i`-th of its place. -/
def toRecords (sourceName : List Nat → EventSource → Option Value) (ds : List Decl)
    (address : List Nat) (i : Nat) : List Value :=
  match ds with
  | [] => []
  | d :: ds => toRecord sourceName d (address ++ [i]) :: toRecords sourceName ds address (i + 1)
termination_by structural ds

end

end Bindery.Decl
