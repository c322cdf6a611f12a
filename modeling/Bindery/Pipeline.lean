import Bindery.Pass

/-!
# Pipelines

A pipeline runs passes in order and refuses a pass that the tree is not ready for. The first pass
that is refused or stops ends the run; what was done until then stays done. Passes keep their
tallies, so running a pipeline again raises the same counters further.
-/

namespace Bindery

/-- A pass with what it has recorded so far. -/
structure Station where
  /-- The pass. -/
  pass : Pass
  /-- What it has recorded. -/
  tally : Tally := {}

/-- Passes in the order in which they run. -/
abbrev Pipeline := List Station

namespace Station

/-- Runs the pass without asking for the stage of the tree. -/
def runDirectly (s : Station) (w : Work) : Station × Work :=
  let done := s.pass.work { w with tally := s.tally }
  ({ s with tally := done.tally }, done)

/-- Moves the tree on to the stage that a finished pass leads to. -/
def advance (s : Station) (w : Work) : Work :=
  { w with tree := { w.tree with stage := w.tree.stage.later s.pass.leadsTo } }

/-- The fault of running the pass on a tree that is not ready for it. -/
def refusal (s : Station) (stage : Stage) : Fault := .tooEarly s.pass.name s.pass.needs stage

end Station

namespace Pipeline

/-- A pipeline of passes that have recorded nothing yet. -/
def ofPasses (passes : List Pass) : Pipeline := passes.map fun pass => { pass }

/-- Runs the passes in order, up to the first that is refused or stops. -/
def run : Pipeline → Work → Pipeline × Work
  | [], w => ([], w)
  | s :: rest, w =>
    if w.tree.stage < s.pass.needs then (s :: rest, w.stop (s.refusal w.tree.stage))
    else
      match s.runDirectly w with
      | (s, done) =>
        match done.fault with
        | some _ => (s :: rest, done)
        | none =>
          let (rest, w) := run rest (s.advance done)
          (s :: rest, w)

/-- What the passes recorded, under their names; of passes with one name the last counts. -/
def stats (p : Pipeline) : Entries :=
  p.foldl (fun es s => Entries.put s.pass.name s.tally.toValue es) []

end Pipeline

end Bindery
