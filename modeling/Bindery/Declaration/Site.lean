import Bindery.Declaration.Basic

/-!
# Places in the tree

A declaration stands at a site: the numbers that lead to it from the list of units, and the labels
of its owners, innermost first. Whether it is ignored, how it is called in full and which unit it
belongs to depends on the site. Everything the passes do is one of three walks: a survey lists all
declarations with their sites, owners before members; a relabelling maps every label by its
site; an extension appends members.
-/

namespace Bindery

/-- A declaration's label and those of its owners, innermost first. -/
abbrev Chain := List Label

namespace Chain

/-- Whether the declaration or one of its owners is out. -/
def isIgnored (chain : Chain) : Bool := chain.any Label.isOut

/-- The labels from the outermost scope of the unit down to the declaration. -/
def belowUnit (chain : Chain) : List Label := (chain.takeWhile fun l => !l.form.isUnit).reverse

/-- Whether there is a target-facing name in full: only texts are put together to one. -/
def isNamed (chain : Chain) : Bool := chain.belowUnit.all fun l => l.name.isText

/-- Whether there is a name in the header in full. -/
def isHeaderNamed (chain : Chain) : Bool := chain.belowUnit.all fun l => l.headerName.isText

/-- The target-facing name in full. -/
def qualifiedName (chain : Chain) : String :=
  "::".intercalate (chain.belowUnit.map fun l => l.name.display)

/-- The name in the header in full. -/
def qualifiedHeaderName (chain : Chain) : String :=
  "::".intercalate (chain.belowUnit.map fun l => l.headerName.display)

/-- The path of the unit the declaration belongs to. -/
def unitPath? (chain : Chain) : Option String :=
  chain.findSome? fun l => match l.form with
    | .unit path => some path
    | _ => none

end Chain

/-- Where a walk through a tree stops. -/
structure Stop where
  /-- The address of the first declaration that the walk cannot deal with. -/
  address : List Nat
  /-- Why it cannot. -/
  fault : Fault

/-- Where a declaration stands. -/
structure Site where
  /-- The numbers that lead to it: of the unit, and then of a member at every level. -/
  address : List Nat
  /-- The labels of its owners, innermost first. -/
  scope : Chain

namespace Site

/-- The place of the units. -/
def top : Site := ⟨[], []⟩

/-- The place of the members of a declaration that stands here. -/
def inside (s : Site) (l : Label) : Site := ⟨s.address, l :: s.scope⟩

/-- The `i`-th declaration of a place. -/
def child (s : Site) (i : Nat) : Site := ⟨s.address ++ [i], s.scope⟩

/-- The chain of a declaration that stands here. -/
def chain (s : Site) (l : Label) : Chain := l :: s.scope

/-- Whether a declaration that stands here is ignored. -/
def isIgnored (s : Site) (l : Label) : Bool := (s.chain l).isIgnored

/-- Whether binding text will be emitted for a declaration that stands here. -/
def isGenerated (s : Site) (l : Label) : Bool :=
  l.treatment == .generate && !s.isIgnored l

/-- The full name in the header of the owner, empty for a unit and directly below one. -/
def owner (s : Site) : String := Chain.qualifiedHeaderName s.scope

/-- Whether a declaration that stands here comes, in the order of a survey, before the one at which
a walk stops; if the walk does not stop, every declaration does. -/
def isBefore (s : Site) (stop : Option Stop) : Bool :=
  stop.all fun halt => decide (s.address < halt.address)

end Site

/-- A declaration and where it stands. -/
structure Located where
  /-- Where it stands. -/
  site : Site
  /-- The declaration. -/
  decl : Decl

namespace Located

/-- Its label. -/
def label (x : Located) : Label := x.decl.label

/-- Its label and those of its owners. -/
def chain (x : Located) : Chain := x.site.chain x.label

/-- Whether it or one of its owners is out. -/
def isIgnored (x : Located) : Bool := x.site.isIgnored x.label

/-- Whether binding text will be emitted for it. -/
def isGenerated (x : Located) : Bool := x.site.isGenerated x.label

/-- Its target-facing name in full. -/
def qualifiedName (x : Located) : String := x.chain.qualifiedName

/-- Its name in the header in full. -/
def qualifiedHeaderName (x : Located) : String := x.chain.qualifiedHeaderName

end Located

/-- Where a walk stops that goes through some declarations in order. -/
def Stop.first? (check : Located → Option Fault) (xs : List Located) : Option Stop :=
  xs.findSome? fun x => (check x).map fun fault => ⟨x.site.address, fault⟩

namespace Decl

mutual

/-- All declarations from this one down, owners before members. -/
def survey (d : Decl) (s : Site) : List Located :=
  match d with
  | node l ms => ⟨s, node l ms⟩ :: surveyAll ms (s.inside l) 0
termination_by structural d

/-- All declarations of a list whose first is the `i`-th of its place. -/
def surveyAll (ds : List Decl) (s : Site) (i : Nat) : List Located :=
  match ds with
  | [] => []
  | d :: ds => survey d (s.child i) ++ surveyAll ds s (i + 1)
termination_by structural ds

end

mutual

/-- Maps every label from this declaration down by its site in the tree as it was. -/
def relabel (f : Site → Label → Label) (d : Decl) (s : Site) : Decl :=
  match d with
  | node l ms => node (f s l) (relabelAll f ms (s.inside l) 0)
termination_by structural d

/-- Maps every label of a list whose first declaration is the `i`-th of its place. -/
def relabelAll (f : Site → Label → Label) (ds : List Decl) (s : Site) (i : Nat) : List Decl :=
  match ds with
  | [] => []
  | d :: ds => relabel f d (s.child i) :: relabelAll f ds s (i + 1)
termination_by structural ds

end

mutual

/-- Appends members from this declaration down, chosen by the site in the tree as it was. -/
def extend (f : Site → Decl → List Decl) (d : Decl) (s : Site) : Decl :=
  match d with
  | node l ms => node l (extendAll f ms (s.inside l) 0 ++ f s (node l ms))
termination_by structural d

/-- Appends members in a list whose first declaration is the `i`-th of its place. -/
def extendAll (f : Site → Decl → List Decl) (ds : List Decl) (s : Site) (i : Nat) : List Decl :=
  match ds with
  | [] => []
  | d :: ds => extend f d (s.child i) :: extendAll f ds s (i + 1)
termination_by structural ds

end

/-- The declaration at an address below a list of declarations, with its site. -/
def locate? (ds : List Decl) (s : Site) : List Nat → Option Located
  | [] => none
  | [i] => ds[i]?.map fun d => ⟨s.child i, d⟩
  | i :: j :: path =>
    match ds[i]? with
    | some (node l ms) => locate? ms ((s.child i).inside l) (j :: path)
    | none => none

/-- Changes the declaration at an address below a list of declarations. -/
def modifyAt (f : Decl → Decl) : List Nat → List Decl → List Decl
  | [], ds => ds
  | [i], ds => ds.modify i f
  | i :: j :: path, ds =>
    ds.modify i fun
      | node l ms => node l (modifyAt f (j :: path) ms)

/-- The declaration that a sequence of roles and numbers leads to. -/
def follow? (ds : List Decl) : List (Role × Nat) → Option Decl
  | [] => none
  | [(role, i)] => (ds.filter fun d => d.role == role)[i]?
  | (role, i) :: next :: steps =>
    match (ds.filter fun d => d.role == role)[i]? with
    | some d => follow? d.members (next :: steps)
    | none => none

/-- The role and number at every level of an address below a list of declarations. -/
def stepsOf (ds : List Decl) : List Nat → List (Role × Nat)
  | [] => []
  | i :: path =>
    match ds[i]? with
    | some d =>
      (d.role, ((ds.take i).filter fun e => e.role == d.role).length) :: stepsOf d.members path
    | none => []

end Decl

end Bindery
