import Bindery.Proofs.Accounting
import Bindery.Proofs.Failure
import Bindery.Proofs.Outcome
import Bindery.Proofs.Uniqueness

/-!
# The order of units

Every pass of a run keeps works in step that differ in the order of the units: what becomes of a
declaration is told from the declaration, its owners and what can be looked up or derived in the tree,
and counters add up over all declarations. So a run comes to the same in any order of the units. Main
statement: `runModule_rearranged`.
-/

namespace Bindery

namespace Tree

variable {σ : Equiv.Perm Nat} {t t' : Tree}

namespace Rearranged

/-- Declarations are as they are meant to be in any order of units. -/
theorem isTyped (h : t.Rearranged σ t') (typed : t.IsTyped) : t'.IsTyped :=
  ⟨h.forall_mem_survey.2 typed.labels, h.forall_mem_survey.2 typed.methods⟩

/-- What is added up over all places of the tree stays. -/
theorem total (h : t.Rearranged σ t') {f f' : Site → Decl → Nat}
    (same : ∀ s d, f' (s.move σ) d = f s d) : t'.total f' = t.total f :=
  h.sum fun x => same x.site x.decl

end Rearranged

/-- What stands in a unit stands in the tree. -/
theorem exists_of_mem_unit {d : Decl} (hd : d ∈ t.units) {x : Located} (hx : x ∈ d.survey Site.top) :
    ∃ y ∈ t.survey, y.decl = x.decl := by
  obtain ⟨i, hi⟩ := List.getElem?_of_mem hd
  refine ⟨⟨(Site.top.child i).graft x.site, x.decl⟩, Decl.mem_surveyAll.2 ⟨i, d, hi, ?_⟩, rfl⟩
  rw [Nat.zero_add, ← (Site.top.child i).graft_top, Decl.survey_graft]
  exact List.mem_map.2 ⟨x, hx, rfl⟩

end Tree

/-- If a name that is a text cannot be judged, it is for a mark that no name can be compared with. -/
theorem fault_of_judge {marks : PrivateMarks} {name : Value} (text : name.isText = true)
    {fault : Fault} (h : Fault.of? (marks.judge name) = some fault) : fault = .wrongKind := by
  obtain ⟨s, rfl⟩ := Value.exists_eq_text text
  have borne : ∀ {mark : Mark} {part : String} {bears : List Char → List Char → Bool},
      Fault.of? (mark.isBorne part bears (.text s)) = some fault → fault = .wrongKind := by
    intro mark part bears h
    cases mark with
    | unusable => exact (Option.some.inj h).symm
    | _ => cases h
  rw [PrivateMarks.judge] at h
  split at h
  · split at h
    · exact borne h
    · exact borne h
  · cases h

/-- Classification raises counters that have names of their own. -/
theorem isFree_of_mem_originRaises {root : WrittenPath} {marks : PrivateMarks} {d : Decl}
    {r : String × Nat} (h : r ∈ d.originRaises root marks) : Tally.IsFree r.1 := by
  have free : ∀ key ∈ (d.originRaises root marks).map Prod.fst, Tally.IsFree key := by
    rw [Decl.originRaises]
    cases Origin.ofPath root d.unitPath <;> simp only [List.map_cons, List.map_nil] <;> decide
  exact free r.1 (List.mem_map_of_mem h)

/-- On a tree with readable names, classification stops only for a mark that no name can be compared
with. -/
theorem fault_of_classify {root : WrittenPath} {marks : PrivateMarks} {w : Work} {fault : Fault}
    (typed : w.tree.IsTyped) (h : (classify root marks w).fault = some fault) :
    fault = .wrongKind := by
  obtain ⟨d, hd, x, hx, hf⟩ := exists_of_classifyUnits root marks w.tree.units w.tally h
  obtain ⟨y, hy, same⟩ := Tree.exists_of_mem_unit hd hx
  have named := (typed.labels y hy).named
  rw [Located.label, same] at named
  exact fault_of_judge named hf

namespace Work

variable {σ : Equiv.Perm Nat} {P Q : Tree → Prop} {w w' done done' : Work}

/-- Works that relabel their trees alike, and record the same, stay level. -/
theorem Level.stands (h : w.Level σ P w') {f f' : Site → Label → Label}
    (same : ∀ s l, f' (s.move σ) l = f s l) (hd : done.Stands w.tree w.outcomes f)
    (hd' : done'.Stands w'.tree w'.outcomes f') (tally : done.tally.Alike done'.tally)
    (holds : Q (w.tree.relabel f)) : done.Level σ Q done' where
  fault := hd.fault
  fault' := hd'.fault
  outcomes := hd'.outcomes.trans (h.outcomes.trans hd.outcomes.symm)
  tally := tally
  tree := by
    rw [hd.tree, hd'.tree]
    exact h.tree.relabel same
  holds := hd.tree.symm ▸ holds

end Work

/-! ## Passes -/

namespace Pass

variable {σ : Equiv.Perm Nat} {names : List Value}

/-- Units are classified alike in any order. -/
theorem keepsStep_origin (root : WrittenPath) (marks : PrivateMarks) :
    (origin root marks).KeepsStep σ (Tree.IsReadable names) (Tree.IsReadable names) := by
  intro w w' h
  change (classify root marks w).InStep σ _ (classify root marks w')
  have turned := classify_turned root marks w
  have turned' := classify_turned root marks w'
  have judged : w'.tree.IsJudged root marks ↔ w.tree.IsJudged root marks :=
    h.tree.forall_mem_survey (P := fun x => x.origin root = .native →
      Decl.isReached marks x.site = true → ∃ v, marks.judge x.label.name = .ok v)
  by_cases hj : w.tree.IsJudged root marks
  · have stands := turned.done hj
    have stands' := turned'.done (judged.2 hj)
    -- What a label becomes is told from the owners, which move along.
    refine (h.stands (fun s l => rfl) stands stands' ?_ ?_).inStep
    · have tally := tally_classifyUnits root marks w.tree.units w.tally stands.fault
      have tally' := tally_classifyUnits root marks w'.tree.units w'.tally stands'.fault
      change (classifyUnits root marks _ _).tally.Alike (classifyUnits root marks _ _).tally
      rw [tally, tally']
      refine h.tally.addAll (h.tree.perm_units.symm.flatMap_right _) fun r hr => ?_
      obtain ⟨d, -, hr⟩ := List.mem_flatMap.1 hr
      exact isFree_of_mem_originRaises hr
    · refine h.holds.relabel (Tree.agreesUnder_originLabel root marks w.tree) fun x hx => ?_
      have named := (h.holds.typed.labels x hx).named
      rw [originLabel]
      split
      · exact named
      · exact named
      · split <;> exact named
  · obtain ⟨fault, hf⟩ : ∃ fault, (classify root marks w).fault = some fault :=
      Option.ne_none_iff_exists'.1 fun running => hj (turned.needed running)
    obtain ⟨fault', hf'⟩ : ∃ fault, (classify root marks w').fault = some fault :=
      Option.ne_none_iff_exists'.1 fun running => hj (judged.1 (turned'.needed running))
    obtain rfl := fault_of_classify h.holds.typed hf
    obtain rfl := fault_of_classify (h.tree.isTyped h.holds.typed) hf'
    exact .of_fault hf hf'

/-- Treatments are resolved alike in any order of units. -/
theorem keepsStep_resolve : resolve.KeepsStep σ Tree.IsTyped Tree.IsTyped := by
  intro w w' h
  have tree : w.tree.resolve.Rearranged σ w'.tree.resolve := h.tree.relabel fun s l => rfl
  have found : (w'.tree.survey.countP fun x => isInherited x.site x.label) =
      w.tree.survey.countP fun x => isInherited x.site x.label := h.tree.countP fun x => rfl
  refine (h.stands (fun s l => rfl) (resolve_stands h.fault) (resolve_stands h.fault') ?_ ?_).inStep
  · change Tally.Alike { w.tally.addSome "propagated" _ with treatments := some _ }
      { w'.tally.addSome "propagated" _ with treatments := some _ }
    rw [tree.treatmentCounts, found]
    exact (h.tally.addSome (by decide) _).withTreatments _
  · refine h.holds.relabel (Tree.agreesUnder_resolvedLabel w.tree) fun x hx => ?_
    have named := (h.holds.labels x hx).named
    rw [resolvedLabel]
    split <;> exact named

/-- Comments are cleared alike in any order of units. -/
theorem keepsStep_clearComments : clearComments.KeepsStep σ Tree.IsTyped Tree.IsTyped := by
  intro w w' h
  have found : (w'.tree.survey.countP fun x => hasComment x.label) =
      w.tree.survey.countP fun x => hasComment x.label := h.tree.countP fun x => rfl
  refine (h.stands (fun s l => rfl) (clearComments_stands h.fault) (clearComments_stands h.fault')
    ?_ h.holds.cleared).inStep
  change (w.tally.addSome "cleared" _).Alike (w'.tally.addSome "cleared" _)
  rw [found]
  exact h.tally.addSome (by decide) _

/-- Documentation is attached alike in any order of units. -/
theorem keepsStep_backfillComments (corpus : Corpus) :
    (backfillComments corpus).KeepsStep σ Tree.IsTyped Tree.IsTyped := by
  intro w w' h
  have documentable : w.tree.IsDocumentable corpus := h.holds.isDocumentable
  have documentable' : w'.tree.IsDocumentable corpus := (h.tree.isTyped h.holds).isDocumentable
  have wanted : (w'.tree.survey.filter fun x => isDocumentable x.site x.label).Perm
      ((w.tree.survey.filter fun x => isDocumentable x.site x.label).map (Located.move σ)) :=
    h.tree.filter fun x => rfl
  have found := wanted.countP_eq (isDocumented corpus)
  have same : (isDocumented corpus ∘ Located.move σ) = isDocumented corpus := rfl
  rw [List.countP_map, same] at found
  have length := wanted.length_eq
  rw [List.length_map] at length
  refine (h.stands (fun s l => rfl) ((backfillComments_turned corpus h.fault).done documentable)
    ((backfillComments_turned corpus h.fault').done documentable') ?_
    (h.holds.documentedLabel corpus)).inStep
  change (Bindery.backfillComments corpus w).tally.Alike (Bindery.backfillComments corpus w').tally
  rw [tally_backfillComments documentable, tally_backfillComments documentable', found, length]
  exact (h.tally.addSome (by decide) _).addSome (by decide) _

/-- Names are recased alike in any order of units. -/
theorem keepsStep_rename (targets : List RenameTarget) (pattern : CasePattern) :
    (rename targets pattern).KeepsStep σ Tree.IsTyped Tree.IsTyped := by
  intro w w' h
  have recasable := h.holds.isRecasable targets pattern
  have recasable' := (h.tree.isTyped h.holds).isRecasable targets pattern
  refine (h.stands (fun s l => rfl) ((rename_turned targets pattern h.fault).done recasable)
    ((rename_turned targets pattern h.fault').done recasable') ?_
    (h.holds.recased targets pattern)).inStep
  have found : (w'.tree.survey.countP fun x =>
      (renamedLabel targets pattern x.site x.label).name != x.label.name) =
        w.tree.survey.countP fun x =>
          (renamedLabel targets pattern x.site x.label).name != x.label.name :=
    h.tree.countP fun x => rfl
  change (Bindery.rename targets pattern w).tally.Alike (Bindery.rename targets pattern w').tally
  rw [tally_rename recasable, tally_rename recasable', found]
  exact h.tally.addSome (by decide) _

end Pass

/-! ## Events -/

namespace EventRule

variable {σ : Equiv.Perm Nat} (rule : EventRule)

/-- A method is offered to a class wherever it has moved. -/
theorem offerAll_move (s : Site) (l : Label) (methods : List Decl) : ∀ (i : Nat) (r : Roster),
    rule.offerAll (s.move σ) l i methods r = rule.offerAll s l i methods r := by
  induction methods with
  | nil => exact fun _ _ => rfl
  | cons m methods ih =>
    intro i r
    rw [offerAll, offerAll, ih]
    rfl

/-- What becomes of a class does not change when it is moved. -/
theorem roster_move (s : Site) (d : Decl) : rule.roster (s.move σ) d = rule.roster s d :=
  rule.offerAll_move s d.label d.methods 0 _

end EventRule

namespace Tree

variable {σ : Equiv.Perm Nat} {t t' : Tree} {rule : EventRule}

/-- Classes have full names, and their methods are as they are meant to be. -/
structure HasReadableClasses (t : Tree) : Prop where
  /-- Classes have full names. -/
  named : t.hasNamedClasses = true
  /-- Their methods are as they are meant to be. -/
  methods : t.HasTypedMethods

/-- Where declarations are as they are meant to be, classes are. -/
theorem IsTyped.hasReadableClasses (h : t.IsTyped) : t.HasReadableClasses :=
  ⟨h.hasNamedClasses, h.hasTypedMethods⟩

/-- Whether classes are as they are meant to be is no matter of the stage. -/
theorem HasReadableClasses.atStage (h : t.HasReadableClasses) {stage : Stage} :
    HasReadableClasses { t with stage } := ⟨h.named, h.methods⟩

/-- Attaching events comes to an end in any order of units, or in none. -/
theorem Rearranged.isAttachable_iff (h : t.Rearranged σ t') :
    t'.IsAttachable rule ↔ t.IsAttachable rule := by
  rw [IsAttachable, h.forall_mem_survey (P := fun x => isEventful x.site x.label = true →
    (rule.roster x.site x.decl).fault = none)]
  simp only [Located.site_move, Located.decl_move, Located.label_move, rule.roster_move]
  rfl

/-- What the visited classes add up to does not depend on the order of units, if all are visited. -/
theorem Rearranged.sum_visited (h : t.Rearranged σ t') (attachable : t.IsAttachable rule)
    (f : Roster → Nat) : ((rule.visited t').map fun v => f v.2).sum =
      ((rule.visited t).map fun v => f v.2).sum := by
  rw [rule.sum_visited, rule.sum_visited, ofRosters_visited_eq_none_iff.2 attachable,
    ofRosters_visited_eq_none_iff.2 (h.isAttachable_iff.2 attachable)]
  refine h.total fun s d => ?_
  rw [rule.roster_move]
  rfl

end Tree

namespace Work

variable {σ : Equiv.Perm Nat} {w w' : Work} {rule : EventRule}

/-- Events are attached alike in any order of units. -/
theorem Level.attachEvents (h : w.Level σ Tree.HasReadableClasses w')
    (attachable : w.tree.IsAttachable rule) :
    (attachEvents rule w).Level σ Tree.HasReadableClasses (Bindery.attachEvents rule w') := by
  have attachable' : w'.tree.IsAttachable rule := h.tree.isAttachable_iff.2 attachable
  have gains := w.tree.gainsUnder_additions rule
  have done := (attachEvents_reaches rule h.fault).done attachable
  have done' := (attachEvents_reaches rule h.fault').done attachable'
  exact {
    fault := done.fault
    fault' := done'.fault
    outcomes := done'.outcomes.trans (h.outcomes.trans done.outcomes.symm)
    tally := by
      rw [tally_attachEvents, tally_attachEvents, h.tree.sum_visited attachable Roster.existing,
        h.tree.sum_visited attachable fun r => r.attached.length,
        h.tree.sum_visited attachable Roster.collisions]
      exact ((h.tally.addSome (by decide) _).addSome (by decide) _).addSome (by decide) _
    tree := by
      rw [done.tree, done'.tree]
      refine h.tree.extend fun s d => ?_
      rw [EventRule.additions, EventRule.additions, rule.roster_move]
      rfl
    holds := by
      rw [done.tree]
      exact ⟨(Tree.hasNamedClasses_extend gains).trans h.holds.named, h.holds.methods.extend gains⟩ }

end Work

namespace Pass

variable {σ : Equiv.Perm Nat}

/-- Events are synthesized alike from signals in any order of units. -/
theorem keepsStep_signalEvents (options : SignalOptions) :
    (signalEvents options).KeepsStep σ Tree.HasReadableClasses Tree.HasReadableClasses := by
  intro w w' h
  refine (h.attachEvents ?_).inStep
  refine h.holds.methods.isAttachable h.holds.named (signalEvents options) rfl fun l hl hm => ?_
  obtain ⟨traits, ht⟩ := Option.isSome_iff_exists.1 hm
  rw [judges, ht]
  exact hl.sections traits ht

/-- Events are synthesized alike from hooks in any order of units. -/
theorem keepsStep_hookEvents (options : HookOptions) :
    (hookEvents options).KeepsStep σ Tree.HasReadableClasses Tree.HasReadableClasses := by
  intro w w' h
  have named' : w'.tree.hasNamedClasses = true := h.tree.hasNamedClasses.trans h.holds.named
  rw [work_eq_attachEvents (w := w) rfl h.holds.named, work_eq_attachEvents (w := w') rfl named',
    h.tree.hookRule]
  exact (h.attachEvents (h.holds.methods.isAttachable h.holds.named (hookEvents options) rfl
    fun _ _ _ => rfl)).inStep

end Pass

/-! ## The library of inline functions -/

namespace Work

variable {σ : Equiv.Perm Nat} {P : Tree → Prop} {w w' : Work}

/-- Tools are run alike whatever the tree is. -/
theorem Level.runTool (h : w.Level σ P w') (tool : Value) (arguments : List String)
    (directory : String) :
    (runTool tool arguments directory w).InStep σ P (Bindery.runTool tool arguments directory w') := by
  cases tool with
  | text program =>
    rw [Bindery.runTool, Bindery.runTool, h.outcomes]
    split
    · exact .of_fault rfl rfl
    · exact Level.inStep ⟨h.fault, h.fault', rfl, h.tally, h.tree, h.holds⟩
  | _ => exact .of_fault rfl rfl

/-- The library is built alike whatever the tree is. -/
theorem Level.buildInlines (h : w.Level σ P w') (r : InlinesRequest) :
    (buildInlines r w).InStep σ P (Bindery.buildInlines r w') := by
  refine InStep.require (f := id) (by cases r.directory <;> rfl) fun directory _ => ?_
  refine InStep.require (f := id) (by cases r.projectFile <;> rfl) fun projectFile _ => ?_
  exact (h.runTool r.qmake [projectFile] directory).andThen fun h => h.runTool r.make [] directory

end Work

namespace Pass

variable {σ : Equiv.Perm Nat} {P : Tree → Prop}

/-- The library is requested alike whatever the tree is. -/
theorem keepsStep_requestInlines (r : InlinesRequest) (hasBuilder : Bool) :
    (requestInlines r hasBuilder).KeepsStep σ P P := by
  intro w w' h
  change (Bindery.requestInlines r hasBuilder w).InStep σ P (Bindery.requestInlines r hasBuilder w')
  refine Work.InStep.require (f := id) (by cases r.libraryPath <;> rfl) fun libraryPath _ => ?_
  have requested : Work.Level σ P { w with tally := { w.tally with libraryPath := some libraryPath } }
      { w' with tally := { w'.tally with libraryPath := some libraryPath } } :=
    ⟨h.fault, h.fault', h.outcomes, h.tally.withLibraryPath _, h.tree, h.holds⟩
  dsimp only [id]
  split
  · exact (requested.buildInlines r).andThen fun h => (h.count (by decide) 1).inStep
  · exact requested.inStep

end Pass

/-! ## Runs -/

namespace RunSettings

variable {σ : Equiv.Perm Nat}

/-- The passes of a run keep works in step if the names that the policy looks up are those of one class
each. -/
theorem keepStep_passes (settings : RunSettings) (root : WrittenPath) {policy : Policy}
    (text : policy.typedEnumName.isText = true) (corpus : Corpus) (request : Option InlinesRequest)
    (hasBuilder : Bool) : Pass.KeepStep σ (Tree.IsReadable policy.lookups)
      (settings.passes root policy corpus request hasBuilder) := by
  have last : Pass.KeepStep σ Tree.HasReadableClasses (lastPasses request hasBuilder) := by
    cases request with
    | none => exact .nil
    | some r => exact .cons (Pass.keepsStep_requestInlines r hasBuilder) (fun _ _ h => h.atStage) .nil
  have events : Pass.KeepStep σ Tree.HasReadableClasses
      (.signalEvents settings.signals :: .hookEvents settings.hooks ::
        lastPasses request hasBuilder) :=
    .cons (Pass.keepsStep_signalEvents settings.signals) (fun _ _ h => h.atStage)
      (.cons (Pass.keepsStep_hookEvents settings.hooks) (fun _ _ h => h.atStage) last)
  have texts : Pass.KeepStep σ Tree.IsTyped (.resolve :: (settings.laterPasses corpus ++
      lastPasses request hasBuilder)) :=
    .cons Pass.keepsStep_resolve (fun _ _ h => h.atStage)
      (.cons Pass.keepsStep_clearComments (fun _ _ h => h.atStage)
        (.cons (Pass.keepsStep_backfillComments corpus) (fun _ _ h => h.atStage)
          (.cons (Pass.keepsStep_rename settings.targets settings.pattern) (fun _ _ h => h.atStage)
            (events.of_imp fun _ h => h.hasReadableClasses))))
  exact .cons (Pass.keepsStep_origin root settings.marks) (fun _ _ h => h.atStage)
    (.cons (Policy.keepsStep_normalize text) (fun _ _ h => h.atStage)
      (texts.of_imp fun _ h => h.typed))

end RunSettings

/-- What a run needs is checked and set up alike in any order of units, if the names that the policy
looks up are those of one class each. -/
theorem prepareRun_rearranged {σ : Equiv.Perm Nat} {t t' : Tree} (h : t.Rearranged σ t')
    {info : ModuleInfo} {config : Value}
    (unambiguous : ∀ policy, runPolicy info config = .ok policy →
      ∀ name ∈ policy.lookups, t.IsUnambiguous name)
    (corpus : Corpus) (request : Option InlinesRequest) (hasBuilder : Bool) :
    prepareRun t' info config corpus request hasBuilder =
      prepareRun t info config corpus request hasBuilder := by
  rw [prepareRun, prepareRun]
  cases he : config.entry "value_types" with
  | error fault => rfl
  | ok extra =>
    change (Policy.forModule (.text info.module) extra >>= _) =
      (Policy.forModule (.text info.module) extra >>= _)
    cases hp : Policy.forModule (.text info.module) extra with
    | error fault => rfl
    | ok policy =>
      have made : runPolicy info config = .ok policy := by
        rw [runPolicy, he]
        exact hp
      change (policy.validate t' >>= _) = (policy.validate t >>= _)
      rw [Policy.validate_rearranged h (unambiguous policy made)]

/-- The passes of a run come to the same in any order of units, whether or not something has stopped
before. -/
theorem RunSettings.run_passes_rearranged (settings : RunSettings) (root : WrittenPath)
    {policy : Policy} (text : policy.typedEnumName.isText = true) (corpus : Corpus)
    (request : Option InlinesRequest) (hasBuilder : Bool) {σ : Equiv.Perm Nat} {w : Work} {t' : Tree}
    (readable : w.tree.IsReadable policy.lookups) (h : w.tree.Rearranged σ t') :
    let passes := Pipeline.ofPasses (settings.passes root policy corpus request hasBuilder)
    (passes.run { w with tree := t' }).2.fault = (passes.run w).2.fault ∧
      ((passes.run w).2.fault = none → (passes.run w).1.Alike (passes.run { w with tree := t' }).1 ∧
        (passes.run w).2.tree.Rearranged σ (passes.run { w with tree := t' }).2.tree) := by
  have split : settings.passes root policy corpus request hasBuilder =
      .origin root settings.marks :: ([.normalize policy, .resolve] ++ settings.laterPasses corpus ++
        lastPasses request hasBuilder) := rfl
  have keep : Pass.KeepStep σ (Tree.IsReadable policy.lookups) _ :=
    settings.keepStep_passes root text corpus request hasBuilder
  rw [split] at keep ⊢
  intro passes
  -- A run starts afresh, so both works are level at its beginning.
  have afresh : ∀ w : Work, passes.run w = passes.run { w with fault := none } :=
    Pipeline.run_origin_afresh root settings.marks _
  rw [afresh w, afresh { w with tree := t' }]
  exact Pipeline.run_inStep keep ⟨rfl, rfl, rfl, .empty, h, readable⟩

/-- The order of units does not matter. On a loaded tree whose sections have simple labels, a run
comes to the same in any order of the units, if each class that the policy looks up is defined at most
once: it stops with the same fault, or it comes to an end with the same statistics of the passes, and
with trees that differ in the order of their units as they did at first. -/
theorem runModule_rearranged {source : String} {document : Value} {t t' : Tree}
    (loaded : Tree.ofDocument source document = .ok t)
    (sections : ∀ x ∈ t.survey, ∀ traits, x.label.form.methodTraits? = some traits →
      traits.sectionLabel.isSimple = true)
    {σ : Equiv.Perm Nat} (rearranged : t.Rearranged σ t') (info : ModuleInfo) (config : Value)
    (unambiguous : ∀ policy, runPolicy info config = .ok policy →
      ∀ name ∈ policy.lookups, t.IsUnambiguous name)
    (corpus : Corpus) (request : Option InlinesRequest) (hasBuilder : Bool) {w : Work}
    (tree : w.tree = t) :
    let done := runModule info config corpus request hasBuilder w
    let done' := runModule info config corpus request hasBuilder { w with tree := t' }
    done'.2.fault = done.2.fault ∧
      (done.2.fault = none → done.2.tree.Rearranged σ done'.2.tree ∧
        ∃ p p', done.1 = some p ∧ done'.1 = some p' ∧
          (Value.mapping p.stats).alike (.mapping p'.stats) = true) := by
  subst tree
  dsimp only
  rw [runModule, runModule, prepareRun_rearranged rearranged unambiguous]
  cases hp : prepareRun w.tree info config corpus request hasBuilder with
  | error fault => exact ⟨rfl, fun running => absurd running (Option.some_ne_none fault)⟩
  | ok pipeline =>
    obtain ⟨policy, settings, hpol, -, -, made⟩ := exists_of_prepareRun_eq_ok hp
    obtain ⟨extra, -, hmod⟩ := exists_of_bind_eq_ok hpol
    have hl := Tree.isLoaded_ofDocument loaded
    have readable : w.tree.IsReadable policy.lookups :=
      ⟨hl.isTyped sections, hl.isShaped, unambiguous policy hpol⟩
    obtain ⟨fault, later⟩ := settings.run_passes_rearranged info.root
      (Policy.isText_typedEnumName hmod) corpus request hasBuilder readable rearranged
    rw [RunSettings.passes, ← made] at fault later
    refine ⟨fault, fun running => ?_⟩
    obtain ⟨alike, tree⟩ := later running
    exact ⟨tree, _, _, rfl, rfl, alike.stats⟩

/-- A dump of two headers of the module `Svg`: one announces a class and has an event object, and one
defines the class, with an anonymous enumeration and a hook for the event. -/
def Tree.scatteredDump : Value :=
  .mapping [("translation_units", .list [
    .mapping [("name", .text "events.h"), ("file_path", .text "include/QtSvg/events.h"),
      ("declarations", .list [
        .mapping [("kind", .text "class"), ("name", .text "QGraphicsSvgItem"),
          ("incomplete", .bool true)],
        .mapping [("kind", .text "class"), ("name", .text "QPaintEvent"),
          ("bases", .list [.text "QEvent"])]])],
    .mapping [("name", .text "item.h"), ("file_path", .text "include/QtSvg/item.h"),
      ("declarations", .list [
        .mapping [("kind", .text "class"), ("name", .text "QGraphicsSvgItem"),
          ("declarations", .list [
            .mapping [("kind", .text "enum")],
            .mapping [("kind", .text "method"), ("name", .text "paintEvent"),
              ("virtual", .bool true), ("parameters", .list [
                .mapping [("name", .text "event"), ("type", .text "QPaintEvent *")]])]])]])]])]

/-- The unit of that dump with the event object. -/
def Tree.scatteredEvents : Decl :=
  .node { name := .text "events.h", headerName := .text "events.h",
          form := .unit "include/QtSvg/events.h" } [
    .node { name := .text "QGraphicsSvgItem", headerName := .text "QGraphicsSvgItem",
            form := .classType ⟨[], true, false⟩ } [],
    .node { name := .text "QPaintEvent", headerName := .text "QPaintEvent",
            form := .classType ⟨["QEvent"], false, false⟩ } []]

/-- The unit of that dump with the hook. -/
def Tree.scatteredItem : Decl :=
  .node { name := .text "item.h", headerName := .text "item.h",
          form := .unit "include/QtSvg/item.h" } [
    .node { name := .text "QGraphicsSvgItem", headerName := .text "QGraphicsSvgItem",
            form := .classType ⟨[], false, false⟩ } [
      .node { name := .text "", headerName := .text "", form := .enumeration } [],
      .node { name := .text "paintEvent", headerName := .text "paintEvent", role := .method,
              form := .method ⟨[⟨"event", "QPaintEvent *"⟩], "void"⟩
                ⟨true, false, false, false, .null, .plain⟩ } []]]

/-- The tree of that dump. -/
def Tree.scatteredTree : Tree := { units := [scatteredEvents, scatteredItem] }

/-- The sample is prepared alike in both orders of its units: the enumeration gets its name, and there
is an event for the hook. -/
theorem runModule_rearranged_sample :
    let info := { ModuleInfo.sample with module := "Svg" }
    let w : Work := { tree := Tree.scatteredTree }
    let t' : Tree := { units := [Tree.scatteredItem, Tree.scatteredEvents] }
    let done := runModule info (.mapping Config.defaults) {} none false w
    let done' := runModule info (.mapping Config.defaults) {} none false { w with tree := t' }
    Tree.scatteredTree.Rearranged (Equiv.swap 0 1) t' ∧ done.2.fault = none ∧
      done'.2.fault = none ∧ done.2.tree.Rearranged (Equiv.swap 0 1) done'.2.tree ∧
      (∃ p p', done.1 = some p ∧ done'.1 = some p' ∧
        (Value.mapping p.stats).alike (.mapping p'.stats) = true) ∧
      (done.2.tree.survey.map fun x => x.label.name) =
        [.text "events.h", .text "QGraphicsSvgItem", .text "QPaintEvent", .text "item.h",
          .text "QGraphicsSvgItem", .text "TypeEnum", .text "PaintEvent", .text "Paint"] := by
  have loaded : Tree.ofDocument "dump.yml" Tree.scatteredDump = .ok Tree.scatteredTree := rfl
  have rearranged : Tree.scatteredTree.Rearranged (Equiv.swap 0 1)
      { units := [Tree.scatteredItem, Tree.scatteredEvents] } := ⟨rfl, Tree.getElem?_swap _ _ _⟩
  have sections : (Tree.scatteredTree.survey.all fun x =>
      x.label.form.methodTraits?.all fun traits => traits.sectionLabel.isSimple) = true := by
    decide +kernel
  have unambiguous : ∀ policy, runPolicy { ModuleInfo.sample with module := "Svg" }
      (.mapping Config.defaults) = .ok policy →
        ∀ name ∈ policy.lookups, Tree.scatteredTree.IsUnambiguous name := by
    intro policy hp name hn
    obtain rfl : Policy.base (.text "Svg") = policy := Except.ok.inj hp
    obtain rfl : name = .text "QGraphicsSvgItem" := List.mem_singleton.1 hn
    intro s text
    obtain rfl : "QGraphicsSvgItem" = s := Option.some.inj text
    decide +kernel
  have completes : (runModule { ModuleInfo.sample with module := "Svg" } (.mapping Config.defaults)
      {} none false { tree := Tree.scatteredTree }).2.fault = none :=
    Option.isNone_iff_eq_none.1 (by decide +kernel)
  obtain ⟨fault, later⟩ := runModule_rearranged loaded (fun x hx traits ht => by
    have hs := List.all_eq_true.1 sections x hx
    rwa [ht] at hs) rearranged { ModuleInfo.sample with module := "Svg" }
      (.mapping Config.defaults) unambiguous {} none false (w := { tree := Tree.scatteredTree }) rfl
  obtain ⟨tree, stats⟩ := later completes
  exact ⟨rearranged, completes, fault.trans completes, tree, stats, by decide +kernel⟩

end Bindery
