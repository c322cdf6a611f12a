import Bindery.Tree

/-!
# Inheritance

Base classes are known by name. The index of a tree lists under every full class name the bases of
all classes of that name; a class derives from another if the other's name can be reached along the
index, however often a name is declared and whether or not there are cycles.
-/

namespace Bindery

/-- The base lists under each class name, in the order in which names were first met. -/
abbrev BaseIndex := List (String × List String)

namespace BaseIndex

/-- Appends bases to the list under a name. -/
def append (name : String) (bases : List String) : BaseIndex → BaseIndex
  | [] => [(name, bases)]
  | (k, bs) :: rest =>
    if k = name then (k, bs ++ bases) :: rest else (k, bs) :: append name bases rest

/-- The bases under a name, none if the name is unknown. -/
def basesOf (index : BaseIndex) (name : String) : List String := (index.lookup name).getD []

/-- How many bases are listed in all. -/
def edgeCount (index : BaseIndex) : Nat := (index.map fun e => e.2.length).foldl Nat.add 0

/-- Searches from the pending names, the last one first. No name is followed twice, so every step
uses up a pending name or an entry of the index, and `fuel` bounds their number. -/
def search (index : BaseIndex) (goal : String) : Nat → List String → List String → Bool
  | 0, _, _ => false
  | _ + 1, [], _ => false
  | fuel + 1, name :: pending, seen =>
    if name = goal then true
    else if name ∈ seen then search index goal fuel pending seen
    else search index goal fuel ((index.basesOf name).reverse ++ pending) (name :: seen)

/-- Whether a class is another one or inherits from it. -/
def derives (index : BaseIndex) (className goal : String) : Bool :=
  search index goal (index.edgeCount + 2) [className] []

/-- Whether one value is another or names a class that inherits from it. Lists and mappings name
nothing that could be followed. -/
def isHeir (index : BaseIndex) (v goal : Value) : Except Fault Bool :=
  if v.alike goal then .ok true
  else
    match v, goal with
    | .text className, .text goal => .ok (index.derives className goal)
    | v, _ => if v.isSimple then .ok false else .error .wrongKind

end BaseIndex

/-- The index of all classes of a tree. -/
def Tree.baseIndex (t : Tree) : BaseIndex :=
  t.survey.foldl (fun index x =>
    match x.label.form.classTraits? with
    | some traits => index.append x.qualifiedName traits.bases
    | none => index) []

/-- The index of all classes of a tree, each of which must have a full name. -/
def Tree.bases (t : Tree) : Except Fault BaseIndex :=
  if t.hasNamedClasses then .ok t.baseIndex else .error .wrongKind

end Bindery
