import Bindery.Proofs.Serving
import Bindery.Proofs.Stability
import Bindery.Proofs.Wording

/-!
# Running again

A run on a loaded tree leads to one that is prepared, documented, recased and served, so that every
pass would find its work done, but for what later passes have brought about: renaming can make a name
private, the string class can get events that the policy does not keep, and events come with names
that were never recased. Running the same pipeline again comes to an end and leaves the tree as it is
just if none of this has happened. Main statement: `runModule_again_iff`.
-/

namespace Bindery

namespace Tree

variable {settings : RunSettings} {root : WrittenPath} {policy : Policy} {corpus : Corpus}
  {t : Tree}

/-- What is true of a tree that a run has finished. -/
structure IsFinished (settings : RunSettings) (root : WrittenPath) (policy : Policy)
    (corpus : Corpus) (t : Tree) : Prop where
  /-- Classification and the policy would find nothing but what later passes have brought about. -/
  prepared : t.IsPrepared root settings.marks policy
  /-- Every comment is the one that the corpus tells. -/
  documented : t.IsDocumented corpus
  /-- Every name to be recased is in its final case, but perhaps those of events. -/
  recased : t.IsRecased settings.targets settings.pattern
  /-- Signals have their events. -/
  signals : t.IsServed settings.signals.rule
  /-- Hooks have their events. -/
  hooks : t.IsServed (settings.hookRule t)

/-- Nothing that the later passes have brought about concerns the earlier ones. -/
structure IsStable (settings : RunSettings) (root : WrittenPath) (policy : Policy) (t : Tree) :
    Prop where
  /-- No generated declaration of a unit of the module has a private name. -/
  shown : t.IsPublic root settings.marks
  /-- The string class has no events. -/
  muted : t.IsMuted policy
  /-- The names of events are in their final case, if events are renamed. -/
  recased : t.HasRecasedEvents settings.targets settings.pattern

/-- Finishing a prepared tree finishes it. -/
theorem IsPrepared.isFinished_finish (h : t.IsPrepared root settings.marks policy)
    (hf : settings.IsFinishable corpus t) :
    (settings.finish corpus t).IsFinished settings root policy corpus := by
  have hooks : settings.hookRule (settings.finish corpus t) =
      settings.hookRule (settings.signalled corpus t) :=
    congrArg settings.hooks.rule (baseIndex_extend (gainsUnder_additions _ _))
  refine
    { prepared := RunSettings.finish_changes.isPrepared h
      documented := isDocumented_finish hf
      recased := ?_
      signals := (isServed_withEvents hf.signals).extend (gainsUnder_additions _ _)
      hooks := ?_ }
  · exact ((isRecased_renamed hf.recasable).withEvents _).withEvents _
  · rw [hooks]
    exact isServed_withEvents hf.hooks

namespace IsFinished

/-- Where classification, policy and resolution change nothing and the names of events are in their
final case, the other passes come to an end and change nothing, either. -/
theorem finish_eq_self (h : t.IsFinished settings root policy corpus)
    (events : t.HasRecasedEvents settings.targets settings.pattern) :
    settings.IsFinishable corpus t ∧ settings.finish corpus t = t := by
  obtain ⟨recasable, renamed⟩ := (h.recased.renamed_eq_self_iff h.prepared.events).2 events
  have documented := h.documented.documented_eq_self
  have renamed : settings.renamed corpus t = t := by rw [RunSettings.renamed, documented, renamed]
  have signalled : settings.signalled corpus t = t := by
    rw [RunSettings.signalled, renamed, h.signals.withEvents_eq_self]
  refine ⟨⟨?_, ?_, ?_, ?_, ?_⟩, ?_⟩
  · exact (isDocumentable_relabel_iff fun x _ => x.mayRead_comment .null).2
      h.documented.documentable
  · rwa [documented]
  · rw [renamed]
    exact h.signals.isAttachable
  · rw [signalled]
    exact h.prepared.applicable.named
  · rw [signalled]
    exact h.hooks.isAttachable
  · rw [RunSettings.finish, signalled, h.hooks.withEvents_eq_self]

/-- If the later passes change nothing, renaming changes nothing: events change no label. -/
theorem renamed_eq_self (h : t.IsFinished settings root policy corpus)
    (same : settings.finish corpus t = t) : t.renamed settings.targets settings.pattern = t := by
  have hr : settings.renamed corpus t = t.renamed settings.targets settings.pattern := by
    rw [RunSettings.renamed, h.documented.documented_eq_self]
  refine relabel_eq_self_iff.2 fun x hx => ?_
  have renamed : x.relabel (renamedLabel settings.targets settings.pattern) ∈
      (settings.renamed corpus t).survey := by
    rw [hr]
    exact mem_survey_relabel.2 ⟨x, hx, rfl⟩
  have finished := extend_mem_survey (settings.hookRule (settings.signalled corpus t)).additions _
    (extend_mem_survey settings.signals.rule.additions _ renamed)
  change _ ∈ (settings.finish corpus t).survey at finished
  rw [same] at finished
  have hx' := congrArg Located.label (eq_of_address_eq finished hx rfl)
  rwa [Located.label_extend, Located.label_extend, Located.label_relabel] at hx'

/-- If a run comes back to a finished tree, nothing has been suppressed anew: suppressions stay. -/
theorem isUncut (h : t.IsFinished settings root policy corpus)
    (same : settings.finish corpus (t.settle root settings.marks policy) = t) :
    t.IsUncut root settings.marks policy := by
  have changes : Changes Located.MayRead (t.settle root settings.marks policy)
      (settings.finish corpus (t.settle root settings.marks policy)) := RunSettings.finish_changes
  rw [same] at changes
  have carries := (changes.mono fun _ _ => Located.MayRead.hasTags).carriesTags
  intro x hx hc
  obtain ⟨y, hy, ha, htags⟩ := carries _ (mem_survey_settle.2 ⟨x, hx, rfl⟩)
  obtain rfl := eq_of_address_eq hy hx ha
  rw [htags.suppression, suppression_settle h.prepared.shaped hx, hc]
  rfl

/-- The passes of a run come to an end on a finished tree and lead back to it just if the tree is
stable. -/
theorem again_iff (h : t.IsFinished settings root policy corpus) :
    settings.Allows root policy corpus t ∧
        settings.finish corpus (t.settle root settings.marks policy) = t ↔
      t.IsStable settings root policy := by
  constructor
  · rintro ⟨allows, same⟩
    have uncut := h.isUncut same
    obtain ⟨shown, muted⟩ := h.prepared.isUncut_iff.1 ⟨allows.judged, uncut⟩
    have settle := h.prepared.settle_eq_self uncut
    have finishable := allows.finishable
    rw [settle] at same finishable
    have recasable := finishable.recasable
    rw [h.documented.documented_eq_self] at recasable
    exact ⟨shown, muted, (h.recased.renamed_eq_self_iff h.prepared.events).1
      ⟨recasable, h.renamed_eq_self same⟩⟩
  · rintro ⟨shown, muted, events⟩
    obtain ⟨judged, uncut⟩ := h.prepared.isUncut_iff.2 ⟨shown, muted⟩
    have settle := h.prepared.settle_eq_self uncut
    obtain ⟨finishable, same⟩ := h.finish_eq_self events
    refine ⟨⟨judged, ?_, ?_⟩, ?_⟩
    · exact isApplicable_classified h.prepared.shaped h.prepared.applicable root settings.marks
    · rwa [settle]
    · rwa [settle]

end IsFinished

/-- Whether a tree is stable is no matter of its stage. -/
theorem isStable_atStage {stage : Stage} :
    IsStable settings root policy { t with stage } ↔ t.IsStable settings root policy :=
  ⟨fun h => ⟨h.shown, h.muted, h.recased⟩, fun h => ⟨h.shown, h.muted, h.recased⟩⟩

end Tree

/-- The passes of a run, when they are ready for a finished tree and lead it to no further stage, come
to an end and leave it as it is just if it is stable. -/
theorem Tree.IsFinished.run_iff {settings : RunSettings} {root : WrittenPath} {policy : Policy}
    {corpus : Corpus} {request : Option InlinesRequest} {hasBuilder : Bool} {t : Tree}
    (h : t.IsFinished settings root policy corpus) {p : Pipeline}
    (passes : p.passes = settings.passes root policy corpus request hasBuilder) {stage : Stage}
    (ready : Pass.AreReady p.passes stage) (last : Pass.stageAfter p.passes stage = stage)
    {os : List Outcome} (tools : (requested request hasBuilder os).fault = none) {w : Work}
    (start : w.IsAt { t with stage } os) :
    (p.run w).2.fault = none ∧ (p.run w).2.tree = { t with stage } ↔
      t.IsStable settings root policy := by
  rw [passes] at ready last
  have again := settings.lead_passes root policy corpus request hasBuilder h.prepared.shaped os
    p w stage passes ready start
  rw [last] at again
  rw [← h.again_iff]
  constructor
  · rintro ⟨completes, same⟩
    obtain ⟨allows, tools⟩ := again.needed completes
    have units := (congrArg Tree.units (again.done ⟨allows, tools⟩).tree).symm.trans
      (congrArg Tree.units same)
    exact ⟨allows, congrArg (Tree.mk t.stage) units⟩
  · rintro ⟨allows, same⟩
    have done := again.done ⟨allows, tools⟩
    rw [same] at done
    exact ⟨done.fault, done.tree⟩

/-- A run on a loaded tree that comes to an end leaves its pipeline behind. This, when it is run
again on the tree, with tools that do as they did before, comes to an end and leaves the tree as it
is just if the tree is stable. -/
theorem runModule_again_iff {source : String} {document : Value} {t : Tree}
    (loaded : Tree.ofDocument source document = .ok t) {info : ModuleInfo} {config : Value}
    {corpus : Corpus} {request : Option InlinesRequest} {hasBuilder : Bool} {w : Work}
    (tree : w.tree = t)
    (completes : (runModule info config corpus request hasBuilder w).2.fault = none) :
    let done := (runModule info config corpus request hasBuilder w).2
    ∃ policy settings p, runPolicy info config = .ok policy ∧
      RunSettings.ofConfig config = .ok settings ∧
      (runModule info config corpus request hasBuilder w).1 = some p ∧
      ∀ w' : Work, w'.IsAt done.tree w.outcomes →
        ((p.run w').2.fault = none ∧ (p.run w').2.tree = done.tree ↔
          done.tree.IsStable settings info.root policy) := by
  intro done
  subst tree
  have hl := Tree.isLoaded_ofDocument loaded
  obtain ⟨policy, settings, hp, hset, finishes⟩ := exists_finish hl.isShaped completes
  obtain ⟨p, hrun, passes⟩ := finishes.pipeline
  refine ⟨policy, settings, p, hp, hset, hrun, fun w' start => ?_⟩
  obtain ⟨extra, -, hp⟩ := exists_of_bind_eq_ok hp
  have prepared := hl.isPrepared_settle (Policy.isSound_forModule hp) finishes.allows.judged
    finishes.allows.applicable
  have finished := prepared.isFinished_finish finishes.allows.finishable
  have ready := finishes.ready
  have last := finishes.last
  rw [← passes] at ready last
  have ht := finishes.tree
  change done.tree = _ at ht
  rw [ht] at start ⊢
  rw [Tree.isStable_atStage]
  exact finished.run_iff passes ready last finishes.requested start

/-- With the default configuration, the sample stays as it is when its pipeline is run again: its
signal has got an event with a name in its final case. -/
theorem runModule_again_sample :
    let result := runModule .sample (.mapping Config.defaults) {} none false
      { tree := Tree.sampleTree }
    result.2.fault = none ∧ (result.2.tree.survey.any fun x => x.label.form.isEvent) = true ∧
      ∃ p, result.1 = some p ∧ (p.run { tree := result.2.tree }).2.fault = none ∧
        (p.run { tree := result.2.tree }).2.tree = result.2.tree := by
  dsimp only
  generalize hr : runModule .sample (.mapping Config.defaults) {} none false
    { tree := Tree.sampleTree } = result
  have completes : result.2.fault = none := by
    rw [← hr]
    exact Option.isNone_iff_eq_none.1 (by decide +kernel)
  have events : (result.2.tree.survey.any fun x => x.label.form.isEvent) = true := by
    rw [← hr]
    decide +kernel
  have shown : result.2.tree.IsPublic (ModuleInfo.root .sample) {} := by
    rw [← hr]
    unfold Tree.IsPublic
    decide +kernel
  have recased : ∀ x ∈ result.2.tree.survey, x.label.form.isEvent = true →
      CasePattern.upperCamel.convert x.label.name = .ok x.label.name := by
    rw [← hr]
    decide +kernel
  have muted : result.2.tree.IsMuted (.base (.text "Gui")) := by
    intro given
    exact absurd given (by decide +kernel)
  obtain ⟨policy, settings, p, hp, hs, hrun, again⟩ :=
    runModule_again_iff (w := { tree := Tree.sampleTree }) Tree.ofDocument_sampleDump rfl
      (hr ▸ completes)
  rw [hr] at hrun again
  obtain rfl : Policy.base (.text "Gui") = policy := Except.ok.inj hp
  have marks : settings.marks = {} := by
    rw [← Except.ok.inj hs]
    rfl
  have pattern : settings.pattern = .upperCamel := by rw [← Except.ok.inj hs]
  have again := again { tree := result.2.tree } ⟨rfl, rfl, rfl⟩
  refine ⟨completes, events, p, hrun, again.2 ⟨?_, muted, fun _ => ?_⟩⟩
  · rwa [marks]
  · rwa [pattern]

/-- A dump of one header of the module `Gui`, with a method whose name renaming makes private. -/
def colorDump : Value :=
  .mapping [("translation_units", .list [
    .mapping [("name", .text "qcolor.h"), ("file_path", .text "/opt/qt/include/QtGui/qcolor.h"),
      ("declarations", .list [.mapping [("kind", .text "class"), ("name", .text "QColor"),
        ("declarations", .list [
          .mapping [("kind", .text "method"), ("name", .text "privateData")]])]])]])]

/-- The tree of that dump. -/
def colorTree : Tree where
  units := [
    .node { name := .text "qcolor.h", headerName := .text "qcolor.h",
            form := .unit "/opt/qt/include/QtGui/qcolor.h" } [
      .node { name := .text "QColor", headerName := .text "QColor",
              form := .classType ⟨[], false, false⟩ } [
        .node { name := .text "privateData", headerName := .text "privateData", role := .method,
                form := .method ⟨[], "void"⟩ ⟨false, false, false, false, .null, .plain⟩ } []]]]

/-- Not every pipeline that has come to an end can be run again and leave the tree as it is: a
method that renaming has given a private name is suppressed then. -/
theorem not_runModule_again :
    ¬ ∀ (source : String) (document : Value) (info : ModuleInfo) (config : Value)
      (corpus : Corpus) (request : Option InlinesRequest) (hasBuilder : Bool) (w : Work),
      Tree.ofDocument source document = .ok w.tree →
        (runModule info config corpus request hasBuilder w).2.fault = none →
          ∀ p, (runModule info config corpus request hasBuilder w).1 = some p → ∀ w' : Work,
            w'.IsAt (runModule info config corpus request hasBuilder w).2.tree w.outcomes →
              (p.run w').2.fault = none ∧
                (p.run w').2.tree = (runModule info config corpus request hasBuilder w).2.tree := by
  intro h
  have again := h "dump.yml" colorDump { ModuleInfo.sample with includePath := "/opt/qt/include" }
    (.mapping Config.defaults) {} none false { tree := colorTree } rfl
  generalize hr : runModule { ModuleInfo.sample with includePath := "/opt/qt/include" }
    (.mapping Config.defaults) {} none false { tree := colorTree } = result at again
  have completes : result.2.fault = none := by
    rw [← hr]
    exact Option.isNone_iff_eq_none.1 (by decide +kernel)
  have first : result.2.tree.survey.map (·.label.treatment) =
      [.generate, .generate, .generate] := by
    rw [← hr]
    decide +kernel
  have second : result.1.map (fun p => (p.run { tree := result.2.tree }).2.tree.survey.map
      (·.label.treatment)) = some [.generate, .generate, .ignore] := by
    rw [← hr]
    decide +kernel
  obtain ⟨p, hp, hs⟩ := Option.map_eq_some_iff.1 second
  rw [(again completes p hp { tree := result.2.tree } ⟨rfl, rfl, rfl⟩).2, first] at hs
  exact absurd hs (by decide)

end Bindery
