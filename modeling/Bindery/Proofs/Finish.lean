import Bindery.Proofs.Completion
import Bindery.Proofs.Outcome

/-!
# What a run makes of a tree

Classification, policy and resolution settle the tree; then it is documented and renamed, and gets
events for signals and for hooks. What this comes to is a function of the tree, provided that nothing
stops it, and what could stop it is a matter of the trees on the way. The library of inline functions
is requested last, which leaves the tree alone. Main statement: `exists_finish`.
-/

namespace Bindery

namespace Tree

/-- The tree without comments. -/
def cleared (t : Tree) : Tree := t.relabel fun _ l => { l with comment := .null }

/-- The tree with the texts of a corpus and no other comments. -/
def documented (corpus : Corpus) (t : Tree) : Tree := t.cleared.relabel (documentedLabel corpus)

/-- The tree after renaming. -/
def renamed (targets : List RenameTarget) (pattern : CasePattern) (t : Tree) : Tree :=
  t.relabel (renamedLabel targets pattern)

/-- The tree with the events of a rule. -/
def withEvents (rule : EventRule) (t : Tree) : Tree := t.extend rule.additions

/-- The events of a rule are for classes that are generated. -/
theorem gainsUnder_additions (rule : EventRule) (t : Tree) : t.GainsUnder rule.additions := by
  intro x _ e he
  rw [EventRule.additions] at he
  split at he
  · next h => exact EventRule.mayGain_of_mem_attached h he
  · simp at he

end Tree

namespace RunSettings

variable (settings : RunSettings) (corpus : Corpus) (t : Tree)

/-- The tree once it is documented and renamed. -/
def renamed : Tree := (t.documented corpus).renamed settings.targets settings.pattern

/-- The tree once it has events for signals. -/
def signalled : Tree := (settings.renamed corpus t).withEvents settings.signals.rule

/-- The rule for hooks in a tree, by the base classes there. -/
def hookRule : EventRule := settings.hooks.rule t.baseIndex

/-- The tree once it has all events. -/
def finish : Tree :=
  (settings.signalled corpus t).withEvents (settings.hookRule (settings.signalled corpus t))

/-- Nothing stops the passes that document, rename and synthesize. -/
structure IsFinishable : Prop where
  /-- Everything that wants documentation can be looked up. -/
  documentable : t.cleared.IsDocumentable corpus
  /-- Every name to be recased can be. -/
  recasable : (t.documented corpus).IsRecasable settings.targets settings.pattern
  /-- Signals get events. -/
  signals : (settings.renamed corpus t).IsAttachable settings.signals.rule
  /-- Classes have full names when hooks are looked for. -/
  named : (settings.signalled corpus t).hasNamedClasses = true
  /-- Hooks get events. -/
  hooks : (settings.signalled corpus t).IsAttachable
    (settings.hookRule (settings.signalled corpus t))

variable {settings corpus t}

/-- Documentation and renaming change how declarations read, and nothing else. -/
theorem renamed_changes : t.Changes Located.MayRead (settings.renamed corpus t) := by
  have cleared : t.Changes Located.MayRead t.cleared := .relabel _ fun x => x.mayRead_comment .null
  have documented : t.cleared.Changes Located.MayRead (t.documented corpus) :=
    .relabel _ fun x => mayRead_documentedLabel corpus x
  have renamed : (t.documented corpus).Changes Located.MayRead (settings.renamed corpus t) :=
    .relabel _ fun x => mayRead_renamedLabel settings.targets settings.pattern x
  exact cleared.trans (documented.trans renamed)

/-- Signals add events. -/
theorem signalled_changes : t.Changes Located.MayRead (settings.signalled corpus t) :=
  renamed_changes.tail (.extend _ (Tree.gainsUnder_additions _ _))

/-- After resolution, a run changes how declarations read and appends events, and does nothing
else. -/
theorem finish_changes : t.Changes Located.MayRead (settings.finish corpus t) :=
  signalled_changes.tail (.extend _ (Tree.gainsUnder_additions _ _))

end RunSettings

/-! ## Requests -/

/-- Two works that have stopped alike, and for which the same outcomes are to come. -/
structure Work.Alike (w w' : Work) : Prop where
  /-- They have stopped alike. -/
  fault : w'.fault = w.fault
  /-- The same outcomes are to come. -/
  outcomes : w'.outcomes = w.outcomes

namespace Work.Alike

variable {w w' : Work}

/-- Steps that keep works alike keep them alike in a row. -/
theorem andThen (h : w.Alike w') {next : Work → Work}
    (hn : ∀ {w w' : Work}, w.Alike w' → (next w).Alike (next w')) :
    (w.andThen next).Alike (w'.andThen next) := by
  rw [Work.andThen, Work.andThen, h.fault]
  split
  · exact hn h
  · exact h

/-- A step that needs something keeps works alike if it does so with what it needs. -/
theorem require {α : Type} (h : w.Alike w') (found : Except Fault α) {next : α → Work → Work}
    (hn : ∀ a, (next a w).Alike (next a w')) :
    (w.require found next).Alike (w'.require found next) := by
  cases found with
  | ok a => exact hn a
  | error fault => exact ⟨rfl, h.outcomes⟩

/-- How a tool ends is a matter of the outcomes to come. -/
theorem runTool (h : w.Alike w') (tool : Value) (arguments : List String) (directory : String) :
    (runTool tool arguments directory w).Alike (Bindery.runTool tool arguments directory w') := by
  have hd : w'.outcomes.drop 1 = w.outcomes.drop 1 := by rw [h.outcomes]
  cases tool with
  | text program =>
    rw [Bindery.runTool, Bindery.runTool, h.outcomes]
    split
    · exact ⟨rfl, rfl⟩
    · exact ⟨h.fault, rfl⟩
  | _ => exact ⟨rfl, h.outcomes⟩

/-- How a request ends is a matter of the outcomes to come. -/
theorem requestInlines (h : w.Alike w') (r : InlinesRequest) (hasBuilder : Bool) :
    (requestInlines r hasBuilder w).Alike (Bindery.requestInlines r hasBuilder w') := by
  have build : ∀ {w w' : Work}, w.Alike w' → (buildInlines r w).Alike (buildInlines r w') :=
    fun h => h.require _ fun directory => h.require _ fun projectFile =>
      (h.runTool r.qmake [projectFile] directory).andThen fun h => h.runTool r.make [] directory
  refine h.require _ fun libraryPath => ?_
  dsimp only
  split
  · have hb : Work.Alike { w with tally := { w.tally with libraryPath := some libraryPath } }
        { w' with tally := { w'.tally with libraryPath := some libraryPath } } :=
      ⟨h.fault, h.outcomes⟩
    exact (build hb).andThen fun h => ⟨h.fault, h.outcomes⟩
  · exact ⟨h.fault, h.outcomes⟩

end Work.Alike

/-- What becomes of a request, on whatever tree, when the given outcomes are to come. -/
def requested (request : Option InlinesRequest) (hasBuilder : Bool) (os : List Outcome) : Work :=
  match request with
  | some r => requestInlines r hasBuilder { tree := {}, outcomes := os }
  | none => { tree := {}, outcomes := os }

/-! ## Where the passes of a run lead -/

namespace Pass

variable {t : Tree} {os : List Outcome}

/-- Classification leads on if every name can be judged that pruning reaches. -/
theorem lead_origin (root : WrittenPath) (marks : PrivateMarks) (t : Tree) (os : List Outcome) :
    Lead [.origin root marks] t os (t.IsJudged root marks) (t.classified root marks) os := by
  refine Lead.single fun stage w hw => ?_
  have h := (classify_turned root marks w).reaches
  rw [hw.tree, hw.outcomes] at h
  exact h

/-- A policy leads on if it can be applied. -/
theorem lead_normalize (policy : Policy) (hs : t.IsShaped) (os : List Outcome) :
    Lead [.normalize policy] t os (policy.IsApplicable t) (t.normalized policy) os := by
  refine Lead.single fun stage w hw => ?_
  have hw' : w.tree.IsShaped := hw.tree ▸ hs.atStage stage
  have h := (policy.apply_turned hw' hw.fault).reaches
  rw [hw.tree, hw.outcomes] at h
  exact ⟨fun hp => h.done (Policy.isApplicable_atStage.2 hp),
    fun hf => Policy.isApplicable_atStage.1 (h.needed hf)⟩

/-- Resolution leads on. -/
theorem lead_resolve (t : Tree) (os : List Outcome) : Lead [.resolve] t os True t.resolve os := by
  refine Lead.single fun stage w hw => ?_
  have h := ((resolve_stands hw.fault).turned trivial).reaches
  rw [hw.tree, hw.outcomes] at h
  exact h

/-- Clearing comments comes to the cleared tree. -/
theorem reaches_clearComments {w : Work} (hw : w.IsAt t os) :
    (clearComments.work w).Reaches t.cleared os True := by
  have h := ((clearComments_stands hw.fault).turned trivial).reaches
  rwa [hw.tree, hw.outcomes] at h

/-- Attaching documentation comes to an end if everything that wants some can be looked up. -/
theorem reaches_backfillComments (corpus : Corpus) {w : Work} (hw : w.IsAt t os) :
    ((backfillComments corpus).work w).Reaches (t.relabel (documentedLabel corpus)) os
      (t.IsDocumentable corpus) := by
  have h := (backfillComments_turned corpus hw.fault).reaches
  rwa [hw.tree, hw.outcomes] at h

/-- Renaming comes to an end if every name to be recased can be. -/
theorem reaches_rename (targets : List RenameTarget) (pattern : CasePattern) {w : Work}
    (hw : w.IsAt t os) :
    ((rename targets pattern).work w).Reaches (t.renamed targets pattern) os
      (t.IsRecasable targets pattern) := by
  have h := (rename_turned targets pattern hw.fault).reaches
  rwa [hw.tree, hw.outcomes] at h

/-- Attaching events for signals comes to an end if it does for every class. -/
theorem reaches_signalEvents (options : SignalOptions) {w : Work} (hw : w.IsAt t os) :
    ((signalEvents options).work w).Reaches (t.withEvents options.rule) os
      (t.IsAttachable options.rule) := by
  have h := attachEvents_reaches options.rule hw.fault
  rwa [hw.tree, hw.outcomes] at h

/-- Attaching events for hooks comes to an end if every class has a full name and it does for every
class. -/
theorem reaches_hookEvents (options : HookOptions) {w : Work} (hw : w.IsAt t os) :
    ((hookEvents options).work w).Reaches (t.withEvents (options.rule t.baseIndex)) os
      (t.hasNamedClasses = true ∧ t.IsAttachable (options.rule t.baseIndex)) := by
  have h := attachEvents_reaches (options.rule w.tree.baseIndex) hw.fault
  rw [hw.tree, hw.outcomes] at h
  rw [work, Tree.bases, hw.tree]
  cases hn : t.hasNamedClasses with
  | false =>
    refine ⟨fun hp => ?_, fun hf => ?_⟩
    · cases hp.1
    · cases hf
  | true => exact ⟨fun hp => h.done hp.2, fun hf => ⟨rfl, h.needed hf⟩⟩

/-- Clearing comments leads on. -/
theorem lead_clearComments (t : Tree) (os : List Outcome) :
    Lead [.clearComments] t os True t.cleared os :=
  Lead.single fun _ _ hw => reaches_clearComments hw

/-- Attaching documentation leads on if everything that wants some can be looked up. -/
theorem lead_backfillComments (corpus : Corpus) (t : Tree) (os : List Outcome) :
    Lead [.backfillComments corpus] t os (t.IsDocumentable corpus)
      (t.relabel (documentedLabel corpus)) os :=
  Lead.single fun _ _ hw => reaches_backfillComments corpus hw

/-- Renaming leads on if every name to be recased can be. -/
theorem lead_rename (targets : List RenameTarget) (pattern : CasePattern) (t : Tree)
    (os : List Outcome) :
    Lead [.rename targets pattern] t os (t.IsRecasable targets pattern)
      (t.renamed targets pattern) os :=
  Lead.single fun _ _ hw => reaches_rename targets pattern hw

/-- Attaching events for signals leads on if it comes to an end for every class. -/
theorem lead_signalEvents (options : SignalOptions) (t : Tree) (os : List Outcome) :
    Lead [.signalEvents options] t os (t.IsAttachable options.rule)
      (t.withEvents options.rule) os :=
  Lead.single fun _ _ hw => reaches_signalEvents options hw

/-- Attaching events for hooks leads on if every class has a full name and it comes to an end for
every class. -/
theorem lead_hookEvents (options : HookOptions) (t : Tree) (os : List Outcome) :
    Lead [.hookEvents options] t os
      (t.hasNamedClasses = true ∧ t.IsAttachable (options.rule t.baseIndex))
      (t.withEvents (options.rule t.baseIndex)) os :=
  Lead.single fun _ _ hw => reaches_hookEvents options hw

/-- Requesting the library of inline functions leads nowhere else, if the tools do their work. -/
theorem lead_lastPasses (request : Option InlinesRequest) (hasBuilder : Bool) (t : Tree)
    (os : List Outcome) :
    Lead (lastPasses request hasBuilder) t os ((requested request hasBuilder os).fault = none)
      t (requested request hasBuilder os).outcomes := by
  cases request with
  | none => exact (lead_nil t os).congr (by simp [requested])
  | some r =>
    refine Lead.single fun stage w hw => ?_
    have h : Work.Alike { tree := {}, outcomes := os } w := ⟨hw.fault, hw.outcomes⟩
    have h := h.requestInlines r hasBuilder
    refine ⟨fun hp => ⟨h.fault.trans hp, ?_, h.outcomes⟩, fun hf => h.fault.symm.trans hf⟩
    rw [work, tree_requestInlines, hw.tree]

end Pass

namespace RunSettings

variable (settings : RunSettings)

/-- Classification, policy and resolution lead from a shaped tree to the settled one. -/
theorem lead_taggingPasses (root : WrittenPath) (policy : Policy) {t : Tree} (hs : t.IsShaped)
    (os : List Outcome) :
    Pass.Lead (settings.taggingPasses root policy) t os
      (t.IsJudged root settings.marks ∧ policy.IsApplicable (t.classified root settings.marks))
      (t.settle root settings.marks policy) os := by
  have hs' := hs.classified root settings.marks
  refine ((Pass.lead_origin root settings.marks t os).append
    ((Pass.lead_normalize policy hs' os).append (Pass.lead_resolve _ os))).congr ?_
  rw [and_true]

/-- The passes that document, rename and synthesize lead on where nothing stops them. -/
theorem lead_laterPasses (corpus : Corpus) (t : Tree) (os : List Outcome) :
    Pass.Lead (settings.laterPasses corpus) t os (settings.IsFinishable corpus t)
      (settings.finish corpus t) os := by
  refine ((Pass.lead_clearComments t os).append ((Pass.lead_backfillComments corpus _ os).append
    ((Pass.lead_rename settings.targets settings.pattern _ os).append
      ((Pass.lead_signalEvents settings.signals _ os).append
        (Pass.lead_hookEvents settings.hooks _ os))))).congr ?_
  exact ⟨fun ⟨_, hd, hr, hs, hn, hh⟩ => ⟨hd, hr, hs, hn, hh⟩,
    fun h => ⟨trivial, h.documentable, h.recasable, h.signals, h.named, h.hooks⟩⟩

/-- The passes of a run. -/
def passes (root : WrittenPath) (policy : Policy) (corpus : Corpus)
    (request : Option InlinesRequest) (hasBuilder : Bool) : List Pass :=
  settings.taggingPasses root policy ++ settings.laterPasses corpus ++
    lastPasses request hasBuilder

/-- Nothing stops the passes of a run on a tree. -/
structure Allows (root : WrittenPath) (policy : Policy) (corpus : Corpus) (t : Tree) : Prop where
  /-- Every name can be judged that pruning reaches. -/
  judged : t.IsJudged root settings.marks
  /-- The policy can be applied. -/
  applicable : policy.IsApplicable (t.classified root settings.marks)
  /-- The settled tree can be documented and renamed and can get events. -/
  finishable : settings.IsFinishable corpus (t.settle root settings.marks policy)

/-- The passes of a run, and where they lead from a shaped tree. -/
theorem lead_passes (root : WrittenPath) (policy : Policy) (corpus : Corpus)
    (request : Option InlinesRequest) (hasBuilder : Bool) {t : Tree} (hs : t.IsShaped)
    (os : List Outcome) :
    Pass.Lead (settings.passes root policy corpus request hasBuilder) t os
      (settings.Allows root policy corpus t ∧ (requested request hasBuilder os).fault = none)
      (settings.finish corpus (t.settle root settings.marks policy))
      (requested request hasBuilder os).outcomes := by
  refine (((settings.lead_taggingPasses root policy hs os).append
    (settings.lead_laterPasses corpus _ os)).append
      (Pass.lead_lastPasses request hasBuilder _ os)).congr ?_
  exact ⟨fun ⟨⟨⟨hj, ha⟩, hf⟩, hr⟩ => ⟨⟨hj, ha, hf⟩, hr⟩,
    fun ⟨h, hr⟩ => ⟨⟨⟨h.judged, h.applicable⟩, h.finishable⟩, hr⟩⟩

end RunSettings

/-- Classification starts afresh, so a run that begins with it does, too. -/
theorem Pipeline.run_origin_afresh (root : WrittenPath) (marks : PrivateMarks) (rest : List Pass)
    (w : Work) : ((ofPasses (.origin root marks :: rest)).run w) =
      (ofPasses (.origin root marks :: rest)).run { w with fault := none } := rfl

/-- What a run with some settings leads to if it comes to an end. -/
structure RunSettings.Finishes (settings : RunSettings) (root : WrittenPath) (policy : Policy)
    (corpus : Corpus) (request : Option InlinesRequest) (hasBuilder : Bool) (w : Work)
    (result : Option Pipeline × Work) : Prop where
  /-- Nothing has stopped the passes. -/
  allows : settings.Allows root policy corpus w.tree
  /-- The tools have done their work. -/
  requested : (requested request hasBuilder w.outcomes).fault = none
  /-- The passes are there with what they recorded. -/
  pipeline : ∃ p, result.1 = some p ∧
    p.passes = settings.passes root policy corpus request hasBuilder
  /-- The tree is ready for the passes once more. -/
  ready : Pass.AreReady (settings.passes root policy corpus request hasBuilder)
    result.2.tree.stage
  /-- The passes lead no further. -/
  last : Pass.stageAfter (settings.passes root policy corpus request hasBuilder)
    result.2.tree.stage = result.2.tree.stage
  /-- The settled tree is finished. -/
  tree : result.2.tree = { settings.finish corpus (w.tree.settle root settings.marks policy) with
    stage := result.2.tree.stage }

/-- A run that comes to an end has run its passes, and whether the work has stopped before makes no
difference. -/
theorem exists_passes_of_runModule {info : ModuleInfo} {config : Value} {corpus : Corpus}
    {request : Option InlinesRequest} {hasBuilder : Bool} {w : Work}
    (completes : (runModule info config corpus request hasBuilder w).2.fault = none) :
    ∃ policy settings, runPolicy info config = .ok policy ∧
      RunSettings.ofConfig config = .ok settings ∧
      let passes := settings.passes info.root policy corpus request hasBuilder
      runModule info config corpus request hasBuilder w =
        (some ((Pipeline.ofPasses passes).run { w with fault := none }).1,
          ((Pipeline.ofPasses passes).run { w with fault := none }).2) := by
  obtain ⟨policy, settings, hp, hset, hrun⟩ := exists_of_runModule completes
  refine ⟨policy, settings, hp, hset, hrun.trans ?_⟩
  have fresh := Pipeline.run_origin_afresh info.root settings.marks
    (.normalize policy :: .resolve :: settings.laterPasses corpus ++ lastPasses request hasBuilder) w
  exact Prod.ext (congrArg (some ·.1) fresh) (congrArg (·.2) fresh)

/-- A run on a shaped tree that comes to an end finishes the settled tree. -/
theorem exists_finish {info : ModuleInfo} {config : Value} {corpus : Corpus}
    {request : Option InlinesRequest} {hasBuilder : Bool} {w : Work} (hs : w.tree.IsShaped)
    (completes : (runModule info config corpus request hasBuilder w).2.fault = none) :
    ∃ policy settings, runPolicy info config = .ok policy ∧
      RunSettings.ofConfig config = .ok settings ∧
      settings.Finishes info.root policy corpus request hasBuilder w
        (runModule info config corpus request hasBuilder w) := by
  obtain ⟨policy, settings, hp, hset, hrun⟩ := exists_passes_of_runModule completes
  refine ⟨policy, settings, hp, hset, ?_⟩
  rw [hrun] at completes ⊢
  have start : Work.IsAt w.tree w.outcomes { w with fault := none } := ⟨rfl, rfl, rfl⟩
  obtain ⟨⟨allows, requested⟩, done⟩ :=
    (settings.lead_passes info.root policy corpus request hasBuilder hs w.outcomes).of_completes
      (Pipeline.passes_ofPasses _) start completes
  obtain ⟨ready, stage⟩ := Pipeline.areReady_of_completes _ completes
  rw [Pipeline.passes_ofPasses] at ready stage
  obtain ⟨again, last⟩ := Pass.areReady_again ready
  rw [← stage] at again last
  refine ⟨allows, requested, ⟨_, rfl, ?_⟩, again, last, ?_⟩
  · rw [Pipeline.passes_run, Pipeline.passes_ofPasses]
  · have ht := done.tree
    rw [← stage] at ht
    exact ht

end Bindery
