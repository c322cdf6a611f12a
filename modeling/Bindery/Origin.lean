import Bindery.WrittenPath
import Bindery.Visibility
import Bindery.Work

/-!
# Origin of units

A header directly below the module's include root is the module's own; every other header was bound
with an earlier module. All declarations of a foreign unit are linked, private names are pruned in
a native unit, and a unit without a file is left alone.
-/

namespace Bindery

/-- Where a unit comes from. -/
inductive Origin where
  /-- The unit has no file. -/
  | unresolved
  /-- The unit belongs to another module. -/
  | foreign
  /-- The unit belongs to the module itself. -/
  | native
  deriving DecidableEq, Repr

/-- The origin of a unit with the given path. -/
def Origin.ofPath (root : WrittenPath) (path : String) : Origin :=
  if !Tree.isValidPath path then .unresolved
  else if (WrittenPath.ofString path).parent = root then .native
  else .foreign

namespace Decl

/-- Links a declaration and everything below it. -/
def link (d : Decl) : Decl := d.relabel (fun _ l => { l with treatment := .link }) Site.top

/-- How many declarations there are from this one down. -/
def size (d : Decl) : Nat := (d.survey Site.top).length

/-- The path of a unit. -/
def unitPath (d : Decl) : String :=
  match d.form with
  | .unit path => path
  | _ => ""

end Decl

/-- What classifying units leads to. -/
structure Classification where
  /-- The units afterwards. -/
  units : List Decl
  /-- The tally afterwards. -/
  tally : Tally
  /-- Why classification stopped early, if it did. -/
  fault : Option Fault := none

/-- Classifies units in order, up to the first fault. -/
def classifyUnits (root : WrittenPath) (marks : PrivateMarks) :
    List Decl → Tally → Classification
  | [], tally => { units := [], tally }
  | unit :: rest, tally =>
    let continueWith (unit : Decl) (tally : Tally) : Classification :=
      let after := classifyUnits root marks rest tally
      { after with units := unit :: after.units }
    match Origin.ofPath root unit.unitPath with
    | .unresolved => continueWith unit (tally.add "skipped_units" 1)
    | .foreign =>
      continueWith unit.link ((tally.add "linked" unit.size).add "linked_units" 1)
    | .native =>
      let pruned := unit.prune marks
      let tally := tally.add "native_units" 1
      match pruned.fault with
      | none => continueWith pruned.context (tally.add "private_ignored" pruned.ignored)
      | some fault => { units := pruned.context :: rest, tally, fault := some fault }

/-- Classifies every unit of the tree. -/
def classify (root : WrittenPath) (marks : PrivateMarks) (w : Work) : Work :=
  let result := classifyUnits root marks w.tree.units w.tally
  { w with
    tree := { w.tree with units := result.units }
    tally := result.tally
    fault := result.fault }

end Bindery
