import Bindery.Pipeline

/-!
# Run reports

A report says what the passes of a run recorded and what the tree looks like afterwards.
-/

namespace Bindery

/-- What a report is about. -/
structure Report where
  /-- The fingerprint of the configuration. -/
  configHash : String
  /-- The module. -/
  module : Value
  /-- What the passes recorded. -/
  passes : Entries := []
  /-- Further parts, which replace parts of the same name. -/
  extra : Entries := []

namespace Report

/-- How many declarations have a comment. -/
def documentedCount (t : Tree) : Nat := t.survey.countP fun x => x.label.comment.isGiven

/-- What the tree looks like. -/
def treeStats (t : Tree) : Value :=
  .mapping [("total_declarations", .int t.survey.length),
    ("generation_kinds", .mapping t.treatmentCounts.entries),
    ("documented", .int (documentedCount t))]

/-- The report on a tree. -/
def toValue (r : Report) (t : Tree) : Value :=
  let own : Entries :=
    [("meta", .mapping [("config_hash", .text r.configHash), ("module", r.module),
        ("stage", .text t.stage.name)]),
      ("passes", .mapping r.passes), ("stats", treeStats t)]
  .mapping (r.extra.foldl (fun es e => Entries.put e.1 e.2 es) own)

end Report

end Bindery
