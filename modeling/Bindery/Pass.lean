import Bindery.Documentation
import Bindery.Event.Rules
import Bindery.Inlines
import Bindery.Normalization
import Bindery.Origin
import Bindery.Renaming
import Bindery.Resolution

/-!
# Passes

A pass is one step of preparing a tree. It names the stage that the tree must have reached and the
stage that the tree is at once the pass has finished.
-/

namespace Bindery

/-- A step of preparing a tree, with its parameters. -/
inductive Pass where
  /-- Links foreign units and prunes private names in native ones. -/
  | origin (root : WrittenPath) (marks : PrivateMarks)
  /-- Applies the module's policy. -/
  | normalize (policy : Policy)
  /-- Settles the treatment of every declaration. -/
  | resolve
  /-- Removes the parser's comments. -/
  | clearComments
  /-- Attaches documentation. -/
  | backfillComments (corpus : Corpus)
  /-- Recases names. -/
  | rename (targets : List RenameTarget) (pattern : CasePattern)
  /-- Synthesizes events from signals. -/
  | signalEvents (options : SignalOptions)
  /-- Synthesizes events from hooks. -/
  | hookEvents (options : HookOptions)
  /-- Requests the library of inline functions. -/
  | requestInlines (request : InlinesRequest) (hasBuilder : Bool)
  /-- A pass whose work was left open. -/
  | undefined
  /-- A pass that synthesizes events by a rule that was left open. -/
  | undefinedEvents

/-- The rule that was left open. -/
def undefinedRule : EventRule where
  origin := "signal"
  collisionMark := defaultCollisionMark
  qualifies := fun _ => .error .undefinedStep
  wantedName := fun method => .ok method.name

namespace Pass

/-- The name under which a pass reports. -/
def name : Pass → String
  | origin _ _ => "origin"
  | normalize _ => "structure"
  | resolve => "resolve"
  | clearComments => "clear_comments"
  | backfillComments _ => "backfill_comments"
  | rename _ _ => "rename"
  | signalEvents _ => "signal_events"
  | hookEvents _ => "event_events"
  | requestInlines _ _ => "compile_inlines"
  | undefined | undefinedEvents => "pass"

/-- The stage the tree must have reached. -/
def needs : Pass → Stage
  | origin _ _ | undefined => .parsed
  | normalize _ => .classified
  | resolve => .normalized
  | clearComments | backfillComments _ | requestInlines _ _ => .resolved
  | rename _ _ => .commented
  | signalEvents _ | hookEvents _ | undefinedEvents => .renamed

/-- The stage the tree is at afterwards, unless it was further already. -/
def leadsTo : Pass → Stage
  | undefined => .parsed
  | origin _ _ => .classified
  | normalize _ => .normalized
  | resolve | clearComments => .resolved
  | backfillComments _ => .commented
  | rename _ _ => .renamed
  | signalEvents _ | hookEvents _ | undefinedEvents => .events
  | requestInlines _ _ => .inlines

/-- Does the work of a pass. -/
def work : Pass → Work → Work
  | origin root marks, w => classify root marks w
  | normalize policy, w => policy.apply w
  | resolve, w => Bindery.resolve w
  | clearComments, w => Bindery.clearComments w
  | backfillComments corpus, w => Bindery.backfillComments corpus w
  | rename targets pattern, w => Bindery.rename targets pattern w
  | signalEvents options, w => attachEvents options.rule w
  | hookEvents options, w =>
    w.require w.tree.bases fun index => attachEvents (options.rule index)
  | requestInlines request hasBuilder, w => Bindery.requestInlines request hasBuilder w
  | undefined, w => w.stop .undefinedStep
  | undefinedEvents, w => attachEvents undefinedRule w

end Pass

end Bindery
