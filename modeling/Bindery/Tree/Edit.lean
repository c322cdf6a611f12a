import Bindery.Origin
import Bindery.Policy

/-!
# Edits by hand

Besides the passes, a tree can be changed at a single place: declarations are added to a scope,
suppressed, linked or pruned with everything below them. Only scopes take members. An event that is
added by hand may have any declaration as its source.
-/

namespace Bindery

namespace Decl

/-- A scope with the given members in the given roles. -/
def assemble (l : Label) (nested methods fields properties : List Decl) : Decl :=
  node l (nested.map (withRole .nested) ++ methods.map (withRole .method) ++
    fields.map (withRole .field) ++ properties.map (withRole .property))

end Decl

namespace Tree

/-- Adds a declaration to the scope at an address. -/
def addMember (address : List Nat) (d : Decl) (t : Tree) : Except Fault Tree :=
  match t.locate? address with
  | some owner =>
    if owner.decl.form.isScope then .ok (t.modifyAt (fun o => o.add d) address)
    else .error (.noSuchPart owner.decl.form.word "add")
  | none => .error .wrongKind

/-- The declaration at an address as the source of an event of the scope at another address: a
method of the same class by its number, anything else by its place in the tree. -/
def sourceAt (t : Tree) (owner address : List Nat) : Option EventSource :=
  (t.locate? address).map fun x =>
    let steps := Decl.stepsOf t.units address
    let isSibling := address.dropLast == owner && x.decl.role == .method
    let target := match steps.getLast? with
      | some (_, i) => if isSibling then .sibling i else .elsewhere steps
      | none => .elsewhere steps
    ⟨target, x.label.signature⟩

/-- An event made by hand. -/
def handmadeEvent (name headerName origin : Value) (source : Option EventSource) : Decl :=
  .node
    { name
      headerName := headerName.orElse name
      form := .event { origin, source, parameters := [] } } []

/-- Suppresses the declaration at an address on purpose. -/
def suppressAt (address : List Nat) (t : Tree) : Tree :=
  t.modifyAt (fun d => .node d.label.suppress d.members) address

/-- Links the declaration at an address and everything below it. -/
def linkAt (address : List Nat) (t : Tree) : Tree := t.modifyAt Decl.link address

/-- Prunes private names below the declaration at an address. -/
def pruneAt (marks : PrivateMarks) (address : List Nat) (t : Tree) : Tree :=
  t.modifyAt (fun d => (d.prune marks).context) address

end Tree

end Bindery
