import Bindery.Work

/-!
# Attaching events to a class

A class gets an event for every method of its that qualifies, unless one adapts that method already.
The wanted name gives way to members of other kinds; overloads share it and are told apart by a
number. Methods are offered in order, and each sees the events attached before it. Attaching stops
at a method whose event cannot be named.
-/

namespace Bindery

/-- Which methods become events, and under which names. -/
structure EventRule where
  /-- The word for the family of events. -/
  origin : String
  /-- What is put in front of a name that another kind of member has. -/
  collisionMark : String
  /-- Whether a method becomes an event. -/
  qualifies : Label → Except Fault Bool
  /-- The name an event should have. -/
  wantedName : Label → Except Fault Value

/-- A class while events are attached to it. -/
structure Roster where
  /-- The members, with the events attached so far at the end. -/
  members : List Decl
  /-- The events attached so far. -/
  attached : List Decl := []
  /-- The methods that an event adapted already. -/
  existing : Nat := 0
  /-- The wanted names that another kind of member had. -/
  collisions : Nat := 0
  /-- The warnings, in order. -/
  warnings : List String := []
  /-- Why attaching stopped early, if it did. -/
  fault : Option Fault := none

/-- Attaches an event. -/
def Roster.take (r : Roster) (event : Decl) : Roster :=
  { r with members := r.members ++ [event], attached := r.attached ++ [event] }

namespace EventRule

/-- Whether an event adapts the `i`-th method of its class, or one of the same family the same
signature. -/
def adapts (rule : EventRule) (i : Nat) (method : Label) (event : Decl) : Bool :=
  event.form.adapter?.any fun a => a.source.any fun source =>
    source.target == .sibling i ||
      (a.origin == .text rule.origin && source.signature.alike method.signature)

/-- Whether an event of the class adapts the `i`-th method. -/
def isAdapted (rule : EventRule) (members : List Decl) (i : Nat) (method : Label) : Bool :=
  members.any fun m => m.role == .event && rule.adapts i method m

/-- The `k`-th choice for a name: the name itself, then the name with a number from 2 on. -/
def candidate (name : Value) (k : Nat) : Value :=
  if k = 0 then name else .text (name.display ++ toString (k + 1))

/-- Whether a member has the name. -/
def isTaken (members : List Decl) (name : Value) : Bool := members.any fun m => m.name.alike name

/-- The first choice for a name that no member has. There are more choices than members. -/
def firstFree (members : List Decl) (name : Value) : Value :=
  match (List.range (members.length + 1)).find? fun k => !isTaken members (candidate name k) with
  | some k => candidate name k
  | none => candidate name (members.length + 1)

/-- The member of another kind that has a name: the first member of that name unless it is an
event. -/
def clash? (members : List Decl) (name : Value) : Option Decl :=
  match members.find? fun m => m.name.alike name with
  | some m => if m.form.isEvent then none else some m
  | none => none

/-- The warning about a name that another kind of member has. -/
def clashWarning (chain : Chain) (name : String) (taken : Decl) (fallback : String) : String :=
  "Event " ++ chain.qualifiedName ++ "::" ++ name ++ " clashes with a " ++ taken.form.word ++
    " (" ++ chain.unitPath?.getD "?" ++ "), using " ++ fallback

/-- The event that adapts the `i`-th method under a name. -/
def eventOf (rule : EventRule) (i : Nat) (method : Label) (name : Value) : Decl :=
  .node
    { name
      headerName := method.headerName.orElse name
      access := method.access
      comment := method.comment
      role := .event
      form := .event
        { origin := .text rule.origin
          source := some ⟨.sibling i, method.signature⟩
          parameters := (method.form.signature?.map Signature.parameters).getD [] } } []

/-- Attaches an event for the `i`-th method of the class with the given chain, under the wanted name
or one that is free. -/
def attachAs (rule : EventRule) (chain : Chain) (i : Nat) (method : Label) (wanted : Value)
    (r : Roster) : Roster :=
  match clash? r.members wanted with
  | none => r.take (rule.eventOf i method (firstFree r.members wanted))
  | some taken =>
    if chain.isNamed then
      let fallback := rule.collisionMark ++ wanted.display
      { r.take (rule.eventOf i method (firstFree r.members (.text fallback))) with
        collisions := r.collisions + 1
        warnings := r.warnings ++ [clashWarning chain wanted.display taken fallback] }
    else { r with fault := some .wrongKind }

/-- Attaches an event for the `i`-th method of the class with the given chain, unless one is there
already. -/
def attach (rule : EventRule) (chain : Chain) (i : Nat) (method : Label) (r : Roster) : Roster :=
  if rule.isAdapted r.members i method then { r with existing := r.existing + 1 }
  else
    match rule.wantedName method with
    | .ok wanted => rule.attachAs chain i method wanted r
    | .error fault => { r with fault := some fault }

/-- Offers the `i`-th method of a class. -/
def offer (rule : EventRule) (site : Site) (label : Label) (i : Nat) (method : Label)
    (r : Roster) : Roster :=
  match r.fault with
  | some _ => r
  | none =>
    if (site.inside label).isGenerated method then
      match rule.qualifies method with
      | .error fault => { r with fault := some fault }
      | .ok false => r
      | .ok true => rule.attach (site.chain label) i method r
    else r

/-- Offers the methods of a class in order, the first of which has number `i`. -/
def offerAll (rule : EventRule) (site : Site) (label : Label) : Nat → List Decl → Roster → Roster
  | _, [], r => r
  | i, m :: ms, r => offerAll rule site label (i + 1) ms (rule.offer site label i m.label r)

/-- What becomes of a class at a site. -/
def roster (rule : EventRule) (site : Site) (d : Decl) : Roster :=
  offerAll rule site d.label 0 d.methods { members := d.members }

end EventRule

/-- Whether a declaration at a site is a class that can get events. -/
def isEventful (s : Site) (l : Label) : Bool := l.form.isClass && s.isGenerated l

/-- The elements of a list up to and including the first that satisfies a condition. -/
def upToFirst {α : Type} (condition : α → Bool) : List α → List α
  | [] => []
  | a :: rest => if condition a then [a] else a :: upToFirst condition rest

/-- Attaches events to every class of the tree that is generated, up to the first fault. -/
def attachEvents (rule : EventRule) (w : Work) : Work :=
  let classes := w.tree.survey.filter fun x => isEventful x.site x.label
  let visited := upToFirst (fun (_, r) => r.fault.isSome)
    (classes.map fun x => (x, rule.roster x.site x.decl))
  let stop := visited.findSome? fun (x, r) => r.fault.map fun fault => Stop.mk x.site.address fault
  let isVisited (s : Site) : Bool :=
    s.isBefore stop || stop.any fun halt => s.address == halt.address
  let tree := w.tree.extend fun s d =>
    if isEventful s d.label && isVisited s then (rule.roster s d).attached else []
  let total (f : Roster → Nat) : Nat := (visited.map fun (_, r) => f r).foldl Nat.add 0
  let counted := (({ w with tree }.countSome "existing" (total Roster.existing)).countSome
    "synthesized" (total fun r => r.attached.length)).countSome
    "collisions" (total Roster.collisions)
  let warnings := counted.warnings ++ visited.flatMap fun (_, r) => r.warnings
  { counted with warnings }.stopAt stop

end Bindery
