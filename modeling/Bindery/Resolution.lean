import Bindery.Work

/-!
# Resolution of treatments

Suppressing an owner takes everything below it out. Resolution writes this down: afterwards the own
treatment of every declaration says what emission does with it.
-/

namespace Bindery

/-- Whether a declaration is out only because an owner is, or only by its mark. -/
def isInherited (s : Site) (l : Label) : Bool := l.treatment != .ignore && s.isIgnored l

/-- The label with its final treatment. -/
def resolvedLabel (s : Site) (l : Label) : Label :=
  if isInherited s l then { l with treatment := .ignore } else l

namespace Tree

/-- The treatments of all declarations. -/
def treatmentCounts (t : Tree) : TreatmentCounts :=
  .ofList (t.survey.map fun x => x.label.treatment)

/-- Gives every declaration its final treatment. -/
def resolve (t : Tree) : Tree := t.relabel resolvedLabel

end Tree

/-- Resolves the tree and counts the final treatments. -/
def resolve (w : Work) : Work :=
  let found := w.tree.survey.countP fun x => isInherited x.site x.label
  let tree := w.tree.resolve
  let counted := { w with tree }.countSome "propagated" found
  { counted with tally := { counted.tally with treatments := some tree.treatmentCounts } }

end Bindery
