import Bindery.Config.Defaults
import Bindery.Module.ParserOptions
import Bindery.Report

/-!
# Runs

A run prepares the tree of one module: the policy is checked against the tree, the passes are set up
from the configuration, and then they run in order. Nothing has been changed when a check or the
set-up fails.
-/

namespace Bindery

/-- The passes of a run that settle and document the tree. Where they are set up from the
configuration, a part of an unexpected kind is a fault. -/
def runPasses (info : ModuleInfo) (config : Value) (policy : Policy) (corpus : Corpus) :
    Except Fault (List Pass) := do
  let visibility ← config.require "visibility"
  let events ← config.require "events"
  let leading ← visibility.require "private_prefix"
  let trailing ← visibility.require "private_suffix"
  let recasing ← config.require "rename"
  let targets ← RenameTarget.ofNames (← recasing.require "targets")
  let pattern ← CasePattern.ofValue (← recasing.require "pattern")
  let sections ← events.require "signal_sections"
  let ending ← events.require "signal_suffix"
  let collisionMark ← events.require "collision_prefix"
  let sections ← sections.members
  let eventBase ← events.require "event_base_class"
  return [
    .origin (WrittenPath.ofString info.includeRoot) ⟨.ofValue leading, .ofValue trailing⟩,
    .normalize policy,
    .resolve,
    .clearComments,
    .backfillComments corpus,
    .rename targets pattern,
    .signalEvents { sections, ending := ending.display, collisionMark := collisionMark.display },
    .hookEvents { eventBase := eventBase.text?, collisionMark := collisionMark.display }]

/-- The pipeline of a run, which ends with the request for the library of inline functions if there
is one. -/
def runPipeline (info : ModuleInfo) (config : Value) (policy : Policy) (corpus : Corpus)
    (request : Option InlinesRequest) (hasBuilder : Bool) : Except Fault Pipeline := do
  let passes ← runPasses info config policy corpus
  let last := match request with
    | some request => [Pass.requestInlines request hasBuilder]
    | none => []
  return .ofPasses (passes ++ last)

/-- Checks everything that a run needs and sets up its pipeline. -/
def prepareRun (t : Tree) (info : ModuleInfo) (config : Value) (corpus : Corpus)
    (request : Option InlinesRequest) (hasBuilder : Bool) : Except Fault Pipeline := do
  let extra ← config.entry "value_types"
  let policy ← Policy.forModule (.text info.module) extra
  policy.validate t
  runPipeline info config policy corpus request hasBuilder

/-- Runs the preparation of a module; the pipeline is missing if it could not be set up. -/
def runModule (info : ModuleInfo) (config : Value) (corpus : Corpus)
    (request : Option InlinesRequest) (hasBuilder : Bool) (w : Work) : Option Pipeline × Work :=
  match prepareRun w.tree info config corpus request hasBuilder with
  | .error fault => (none, w.stop fault)
  | .ok pipeline =>
    let (pipeline, done) := pipeline.run w
    (some pipeline, done)

end Bindery
