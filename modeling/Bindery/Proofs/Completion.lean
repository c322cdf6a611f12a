import Bindery.Proofs.Loaded
import Bindery.Proofs.Passage
import Bindery.Run

/-!
# Runs that come to an end

A run that does not stop has read its settings from the configuration, has found everything that the
policy names, and has finished every pass, each on the tree that the one before it left.
-/

namespace Bindery

/-- What the passes of a run take from the configuration. -/
structure RunSettings where
  /-- The marks of private names. -/
  marks : PrivateMarks
  /-- The kinds of declarations to be renamed. -/
  targets : List RenameTarget
  /-- The convention for their names. -/
  pattern : CasePattern
  /-- How signals are recognised and named. -/
  signals : SignalOptions
  /-- How hooks are recognised. -/
  hooks : HookOptions

namespace RunSettings

/-- Reads the settings of a run. -/
def ofConfig (config : Value) : Except Fault RunSettings := do
  let visibility ← config.require "visibility"
  let events ← config.require "events"
  let leading ← visibility.require "private_prefix"
  let trailing ← visibility.require "private_suffix"
  let recasing ← config.require "rename"
  let targets ← RenameTarget.ofNames (← recasing.require "targets")
  let pattern ← CasePattern.ofValue (← recasing.require "pattern")
  let sections ← events.require "signal_sections"
  let ending ← events.require "signal_suffix"
  let collisionMark ← events.require "collision_prefix"
  let sections ← sections.members
  let eventBase ← events.require "event_base_class"
  return {
    marks := ⟨.ofValue leading, .ofValue trailing⟩
    targets
    pattern
    signals := { sections, ending := ending.display, collisionMark := collisionMark.display }
    hooks := { eventBase := eventBase.text?, collisionMark := collisionMark.display } }

/-- The passes of a run that classify, normalize and resolve the tree. -/
def taggingPasses (s : RunSettings) (root : WrittenPath) (policy : Policy) : List Pass :=
  [.origin root s.marks, .normalize policy, .resolve]

/-- The passes of a run that document, rename and synthesize. -/
def laterPasses (s : RunSettings) (corpus : Corpus) : List Pass :=
  [.clearComments, .backfillComments corpus, .rename s.targets s.pattern, .signalEvents s.signals,
    .hookEvents s.hooks]

end RunSettings

/-- The include root of a module, as a written path. -/
def ModuleInfo.root (info : ModuleInfo) : WrittenPath := WrittenPath.ofString info.includeRoot

/-- The policy of a run: that of the module, with the value types of the configuration. -/
def runPolicy (info : ModuleInfo) (config : Value) : Except Fault Policy := do
  let extra ← config.entry "value_types"
  Policy.forModule (.text info.module) extra

/-- The pass that requests the library of inline functions, if it is requested. -/
def lastPasses (request : Option InlinesRequest) (hasBuilder : Bool) : List Pass :=
  match request with
  | some request => [Pass.requestInlines request hasBuilder]
  | none => []

/-- The passes of a run are set up from its settings. -/
theorem runPasses_eq (info : ModuleInfo) (config : Value) (policy : Policy) (corpus : Corpus) :
    runPasses info config policy corpus =
      (fun s => s.taggingPasses info.root policy ++ s.laterPasses corpus) <$>
        RunSettings.ofConfig config := by
  simp only [runPasses, RunSettings.ofConfig, map_bind, map_pure]
  rfl

/-- What was set up without a fault. -/
theorem exists_of_prepareRun_eq_ok {t : Tree} {info : ModuleInfo} {config : Value}
    {corpus : Corpus} {request : Option InlinesRequest} {hasBuilder : Bool} {pipeline : Pipeline}
    (h : prepareRun t info config corpus request hasBuilder = .ok pipeline) :
    ∃ policy settings, runPolicy info config = .ok policy ∧ policy.validate t = .ok () ∧
      RunSettings.ofConfig config = .ok settings ∧
      pipeline = .ofPasses (settings.taggingPasses info.root policy ++
        settings.laterPasses corpus ++ lastPasses request hasBuilder) := by
  obtain ⟨extra, he, h⟩ := exists_of_bind_eq_ok h
  obtain ⟨policy, hp, h⟩ := exists_of_bind_eq_ok h
  obtain ⟨_, valid, h⟩ := exists_of_bind_eq_ok h
  obtain ⟨passes, hps, h⟩ := exists_of_bind_eq_ok h
  rw [runPasses_eq] at hps
  cases hs : RunSettings.ofConfig config with
  | error fault =>
    rw [hs] at hps
    cases hps
  | ok settings =>
    rw [hs] at hps
    obtain rfl := Except.ok.inj hps
    refine ⟨policy, settings, ?_, valid, rfl, (Except.ok.inj h).symm⟩
    rw [runPolicy, he]
    exact hp

/-- A run that did not stop has run a pipeline to its end. -/
theorem exists_of_runModule {info : ModuleInfo} {config : Value} {corpus : Corpus}
    {request : Option InlinesRequest} {hasBuilder : Bool} {w : Work}
    (h : (runModule info config corpus request hasBuilder w).2.fault = none) :
    ∃ policy settings, runPolicy info config = .ok policy ∧
      RunSettings.ofConfig config = .ok settings ∧
      runModule info config corpus request hasBuilder w =
        (some ((Pipeline.ofPasses (settings.taggingPasses info.root policy ++
            settings.laterPasses corpus ++ lastPasses request hasBuilder)).run w).1,
          ((Pipeline.ofPasses (settings.taggingPasses info.root policy ++
            settings.laterPasses corpus ++ lastPasses request hasBuilder)).run w).2) := by
  rw [runModule] at h ⊢
  cases hp : prepareRun w.tree info config corpus request hasBuilder with
  | error fault =>
    rw [hp] at h
    cases h
  | ok pipeline =>
    obtain ⟨policy, settings, hpol, -, hset, rfl⟩ := exists_of_prepareRun_eq_ok hp
    exact ⟨policy, settings, hpol, hset, rfl⟩

end Bindery
