import Bindery.Proofs.Clearing
import Bindery.Proofs.Synthesis
import Bindery.Proofs.Wording

/-!
# Running a pass twice

What a pass does to a declaration is decided by parts of the tree that it leaves as they are, or that
read the same to it afterwards: classification keeps names, a policy finds the same classes and
enumerations, a recased name is recased to itself, and a method that has got its event is adapted. So
a pass that has come to an end has nothing left to do. Each kind of pass has a section of its own that
says so of the tree it leads to. Main statement: `Pass.work_twice`.
-/

namespace Bindery

namespace Pass

/-- Whether a pass has tools do its work. -/
def usesTools : Pass → Bool
  | requestInlines _ _ => true
  | _ => false

/-- The counter of the declarations that a pass has given another name or added. -/
def counter? : Pass → Option String
  | rename _ _ => some "renamed"
  | signalEvents _ | hookEvents _ | undefinedEvents => some "synthesized"
  | _ => none

/-- A pass has nothing to do on a tree: whenever it is run there it comes to an end, leaves the tree
as it is, and counts nothing that it has renamed or added. -/
structure IsIdleAt (pass : Pass) (t : Tree) : Prop where
  /-- It comes to an end. -/
  completes : ∀ w : Work, w.tree = t → w.fault = none → (pass.work w).fault = none
  /-- It leaves the tree as it is. -/
  tree : ∀ w : Work, w.tree = t → w.fault = none → (pass.work w).tree = t
  /-- It counts nothing. -/
  count : ∀ key, pass.counter? = some key → ∀ w : Work, w.tree = t → w.fault = none →
    (pass.work w).tally.count key = w.tally.count key

/-- A pass that relabels has nothing to do where it can come to an end, changes no label and counts
nothing. -/
theorem isIdleAt_of_turned {pass : Pass} {t : Tree} {possible : Prop} {f : Site → Label → Label}
    (turned : ∀ w : Work, w.tree = t → w.fault = none →
      (pass.work w).Turned t w.outcomes possible f)
    (again : possible ∧ t.relabel f = t)
    (count : ∀ key, pass.counter? = some key → ∀ w : Work, w.tree = t → w.fault = none →
      (pass.work w).tally.count key = w.tally.count key) : pass.IsIdleAt t where
  completes w tree running := ((turned w tree running).done again.1).fault
  tree w tree running := ((turned w tree running).done again.1).tree.trans again.2
  count := count

end Pass

/-! ## Classification -/

namespace Tree

variable {root : WrittenPath} {marks : PrivateMarks} {t : Tree} {x : Located}

/-- Pruning reaches the same declarations when a tree was classified. -/
theorem isReached_classified (hx : x ∈ t.survey) :
    Decl.isReached marks (x.classified root marks).site = Decl.isReached marks x.site :=
  isReached_relabel hx fun y _ _ _ => by rw [originLabel_eq]

/-- Names are the same when a tree was classified. -/
theorem name_classified (x : Located) : (x.classified root marks).label.name = x.label.name := by
  rw [Located.classified, Located.label_relabel, originLabel_eq]

/-- Classifying a declaration again changes nothing. -/
theorem originLabel_classified (hx : x ∈ t.survey) :
    originLabel root marks (x.classified root marks).site (x.classified root marks).label =
      (x.classified root marks).label := by
  have origin : Origin.ofPath root
      ((x.classified root marks).site.chain (x.classified root marks).label).rootPath =
        x.origin root := origin_relabel root (agreesUnder_originLabel root marks t) hx
  have pruned : Decl.isPruned marks (x.classified root marks).site (x.classified root marks).label =
      Decl.isPruned marks x.site x.label := by
    rw [Decl.isPruned, Decl.isPruned, isReached_classified hx, name_classified]
  have label : (x.classified root marks).label = originLabel root marks x.site x.label :=
    Located.label_relabel _ x
  rw [originLabel, origin, pruned, label, originLabel,
    show Origin.ofPath root (x.site.chain x.label).rootPath = x.origin root from rfl]
  cases x.origin root with
  | unresolved => rfl
  | foreign => rfl
  | native => cases Decl.isPruned marks x.site x.label <;> rfl

/-- A classified tree can be classified again, which changes nothing. -/
theorem classified_classified (h : t.IsJudged root marks) :
    (t.classified root marks).IsJudged root marks ∧
      (t.classified root marks).classified root marks = t.classified root marks := by
  constructor
  · intro y hy native reached
    obtain ⟨x, hx, rfl⟩ := mem_survey_relabel.1 hy
    rw [origin_relabel root (agreesUnder_originLabel root marks t) hx] at native
    obtain ⟨v, hv⟩ := h x hx native (isReached_classified hx ▸ reached)
    exact ⟨v, (congrArg marks.judge (name_classified x)).trans hv⟩
  · refine relabel_eq_self_iff.2 fun y hy => ?_
    obtain ⟨x, hx, rfl⟩ := mem_survey_relabel.1 hy
    exact originLabel_classified hx

end Tree

/-- Classification has nothing to do on a tree that can be classified, which changes nothing. -/
theorem Pass.isIdleAt_origin {root : WrittenPath} {marks : PrivateMarks} {t : Tree}
    (again : t.IsJudged root marks ∧ t.classified root marks = t) :
    (origin root marks).IsIdleAt t := by
  refine isIdleAt_of_turned ?_ again nofun
  rintro w rfl -
  exact classify_turned root marks w

/-! ## Policies -/

namespace Policy

variable {p : Policy} {t : Tree} {x : Located}

/-- A policy names an anonymous enumeration again only if it has named it before. -/
theorem namesEnum_of_normalized (hs : t.IsShaped) (hx : x ∈ t.survey)
    (h : p.namesEnum (t.normalized p) (x.site.relabel (p.labelUnder t))
      (p.labelUnder t x.site x.label) = true) : p.namesEnum t x.site x.label = true := by
  have ha := Tree.agreesUnder_labelUnder p t
  by_contra hn
  have name : (p.labelUnder t x.site x.label).name = x.label.name := by
    rw [name_labelUnder, if_neg hn]
  rw [namesEnum, Tree.normalized, namesEnumsOf_relabel hs ha, Site.address_relabel, isAnonymousEnum,
    (ha x hx).role, (ha x hx).isEnumeration, name] at h
  exact hn h

/-- A policy leaves a label alone in which everything is as the policy wants it. -/
theorem labelUnder_eq_self {s : Site} {l : Label}
    (name : p.namesEnum t s l = true → l.name = p.typedEnumName)
    (access : p.publishes t s = true → l.access = .publicAccess)
    (suppressed : p.suppresses t s l = true → l.treatment = .ignore ∧ l.suppression = .bool true)
    (value : p.makesValue s l = true → markValue l = l) : p.labelUnder t s l = l := by
  rw [labelUnder_eq, ite_eq_right_iff.2 fun h => (name h).symm,
    ite_eq_right_iff.2 fun h => (access h).symm,
    ite_eq_right_iff.2 fun h => (suppressed h).1.symm,
    ite_eq_right_iff.2 fun h => (suppressed h).2.symm,
    ite_eq_right_iff.2 fun h => congrArg Label.form (value h)]

/-- Applying a policy to a declaration again changes nothing. -/
theorem labelUnder_normalized (hs : t.IsShaped) (hx : x ∈ t.survey) :
    p.labelUnder (t.normalized p) (x.site.relabel (p.labelUnder t)) (p.labelUnder t x.site x.label) =
      p.labelUnder t x.site x.label := by
  have ha := Tree.agreesUnder_labelUnder p t
  refine labelUnder_eq_self (fun h => ?_) (fun h => ?_) (fun h => ?_) fun h => ?_
  · rw [name_labelUnder, if_pos (namesEnum_of_normalized hs hx h)]
  · rw [publishes_normalized hs] at h
    rw [access_labelUnder, if_pos h]
  · rw [Tree.normalized, suppresses_relabel hs ha hx] at h
    rw [treatment_labelUnder, suppression_labelUnder, if_pos h, if_pos h]
    exact ⟨rfl, rfl⟩
  · rw [makesValue_relabel hs ha hx] at h
    rw [markValue_eq_self_iff, form_labelUnder, if_pos h, ← markValue_eq_self_iff,
      markValue_markValue]

end Policy

/-- A policy that was applied can be applied again, which changes nothing. -/
theorem Policy.IsApplicable.normalized_normalized {p : Policy} {t : Tree} (h : p.IsApplicable t)
    (hs : t.IsShaped) :
    p.IsApplicable (t.normalized p) ∧ (t.normalized p).normalized p = t.normalized p := by
  refine ⟨h.normalized hs, Tree.relabel_eq_self_iff.2 fun y hy => ?_⟩
  obtain ⟨x, hx, rfl⟩ := Tree.mem_survey_relabel.1 hy
  rw [Located.site_relabel, Located.label_relabel]
  exact Policy.labelUnder_normalized hs hx

/-- Normalization has nothing to do on a tree that the policy can be applied to, which changes
nothing. -/
theorem Pass.isIdleAt_normalize {p : Policy} {t : Tree} (hs : t.IsShaped)
    (again : p.IsApplicable t ∧ t.normalized p = t) : (normalize p).IsIdleAt t := by
  refine isIdleAt_of_turned ?_ again nofun
  rintro w rfl running
  exact p.apply_turned hs running

/-! ## Resolution and comments -/

namespace Tree

variable {t : Tree} {x : Located} {corpus : Corpus}

/-- Resolving a settled tree changes nothing. -/
theorem IsSettled.resolve_eq_self (h : t.IsSettled) : t.resolve = t := by
  refine relabel_eq_self_iff.2 fun x hx => ?_
  rw [resolvedLabel, if_neg]
  rw [isInherited, Bool.and_eq_true, bne_iff_ne]
  rintro ⟨shown, ignored⟩
  exact shown ((h x hx).2 ignored)

/-- Attaching documentation again changes nothing. -/
theorem relabel_documentedLabel_again (corpus : Corpus) (t : Tree) :
    (t.relabel (documentedLabel corpus)).relabel (documentedLabel corpus) =
      t.relabel (documentedLabel corpus) := by
  have reads : ∀ x ∈ t.survey, x.MayRead (documentedLabel corpus x.site x.label) :=
    fun x _ => mayRead_documentedLabel corpus x
  refine relabel_eq_self_iff.2 fun y hy => ?_
  obtain ⟨x, hx, rfl⟩ := mem_survey_relabel.1 hy
  rw [documentedLabel, isDocumentable_relabel reads hx, lookupAt_relabel corpus reads hx,
    Located.label_relabel, documentedLabel]
  split
  · cases corpus.lookupAt x.site x.label with
    | error fault => rfl
    | ok found => cases found <;> rfl
  · rfl

end Tree

namespace Pass

variable {t : Tree}

/-- Resolution has nothing to do on a settled tree. -/
theorem isIdleAt_resolve (h : t.IsSettled) : resolve.IsIdleAt t := by
  refine isIdleAt_of_turned ?_ ⟨trivial, h.resolve_eq_self⟩ nofun
  rintro w rfl running
  exact (resolve_stands running).turned trivial

/-- Clearing comments has nothing to do where it changes nothing. -/
theorem isIdleAt_clearComments (h : t.cleared = t) : clearComments.IsIdleAt t := by
  refine isIdleAt_of_turned ?_ ⟨trivial, h⟩ nofun
  rintro w rfl running
  exact (clearComments_stands running).turned trivial

/-- Attaching documentation has nothing to do on a tree that can be documented, which changes
nothing. -/
theorem isIdleAt_backfillComments {corpus : Corpus}
    (again : t.IsDocumentable corpus ∧ t.relabel (documentedLabel corpus) = t) :
    (backfillComments corpus).IsIdleAt t := by
  refine isIdleAt_of_turned ?_ again nofun
  rintro w rfl running
  exact backfillComments_turned corpus running

end Pass

/-! ## Names -/

/-- Renaming where it changes nothing counts nothing. -/
theorem count_rename {targets : List RenameTarget} {pattern : CasePattern} {w : Work}
    (same : w.tree.renamed targets pattern = w.tree) :
    (rename targets pattern w).tally.count "renamed" = w.tally.count "renamed" := by
  have labels := Tree.relabel_eq_self_iff.1 same
  have none : (w.tree.survey.countP fun x =>
      (if x.site.isBefore (renamingStop? targets pattern w.tree) then
        renamedLabel targets pattern x.site x.label else x.label).name != x.label.name) = 0 := by
    rw [List.countP_eq_zero]
    intro x hx
    rw [labels x hx, ite_self, bne_self_eq_false]
    exact Bool.false_ne_true
  have tally : (rename targets pattern w).tally = w.tally.addSome "renamed" 0 := by
    rw [← none]
    change (Work.stopAt _ (renamingStop? targets pattern w.tree)).tally = _
    cases renamingStop? targets pattern w.tree <;> rfl
  rw [tally, Tally.count_addSome, ite_self, Nat.add_zero]

/-- Renaming has nothing to do on a tree that can be renamed, which changes nothing. -/
theorem Pass.isIdleAt_rename {targets : List RenameTarget} {pattern : CasePattern} {t : Tree}
    (again : t.IsRecasable targets pattern ∧ t.renamed targets pattern = t) :
    (rename targets pattern).IsIdleAt t := by
  refine isIdleAt_of_turned ?_ again ?_
  · rintro w rfl running
    exact rename_turned targets pattern running
  · rintro key hk w rfl -
    obtain rfl := Option.some.inj hk
    exact count_rename again.2

/-! ## Events -/

/-- Attaching events where there are none to attach counts none. -/
theorem count_attachEvents_of_isServed {rule : EventRule} {w : Work} (h : w.tree.IsServed rule) :
    (attachEvents rule w).tally.count "synthesized" = w.tally.count "synthesized" := by
  have none : ∀ v ∈ rule.visited w.tree, v.2.attached.length = 0 := by
    intro v hv
    obtain ⟨x, hx, rfl⟩ := List.mem_map.1 (mem_of_mem_upToFirst hv)
    obtain ⟨hx, eventful⟩ := List.mem_filter.1 hx
    rw [(EventRule.roster_of_isServed (h x hx eventful)).1, List.length_nil]
  rw [(count_attachEvents rule w).2, List.map_congr_left none]
  simp

namespace Pass

variable {pass : Pass} {t : Tree} {rule : EventRule} {g : Site → Decl → List Decl}

/-- The rule of a pass for events does not depend on the events that are there. -/
theorem eventRule?_extend (hg : t.GainsUnder g) :
    pass.eventRule? (t.extend g) = pass.eventRule? t := by
  cases pass with
  | hookEvents options => rw [eventRule?, eventRule?, Tree.baseIndex_extend hg]
  | _ => rfl

/-- A pass for events has nothing to do where every method that qualifies is adapted. -/
theorem isIdleAt_of_isServed (named : t.hasNamedClasses = true) (hr : pass.eventRule? t = some rule)
    (served : t.IsServed rule) : pass.IsIdleAt t := by
  have work : ∀ w : Work, w.tree = t → pass.work w = attachEvents rule w := by
    rintro w rfl
    exact work_eq_attachEvents hr named
  refine ⟨fun w tree running => ?_, fun w tree running => ?_, fun key hk w tree running => ?_⟩
  · rw [work w tree, fault_attachEvents rule running, tree]
    exact served.isAttachable
  · have reached := (attachEvents_reaches rule running).done (tree ▸ served.isAttachable)
    rw [work w tree, reached.tree, tree]
    exact served.withEvents_eq_self
  · obtain rfl : "synthesized" = key := by
      cases pass <;> first | exact Option.some.inj hk | cases hr
    rw [work w tree]
    exact count_attachEvents_of_isServed (tree ▸ served)

/-- A pass for events that has come to an end has nothing left to do. -/
theorem isIdleAt_work_of_eventRule? {w : Work} (named : w.tree.hasNamedClasses = true)
    (hr : pass.eventRule? w.tree = some rule) (running : w.fault = none)
    (succeeds : (pass.work w).fault = none) : pass.IsIdleAt (pass.work w).tree := by
  rw [work_eq_attachEvents hr named] at succeeds ⊢
  have attachable := (fault_attachEvents rule running).1 succeeds
  rw [((attachEvents_reaches rule running).done attachable).tree]
  have gains := w.tree.gainsUnder_additions rule
  exact isIdleAt_of_isServed ((Tree.hasNamedClasses_extend gains).trans named)
    ((eventRule?_extend gains).trans hr) (Tree.isServed_withEvents attachable)

end Pass

/-! ## Passes -/

namespace Pass

/-- A pass that has come to an end has nothing left to do, on a tree that has its classes named and
forms and places of which fit together. -/
theorem isIdleAt_work {pass : Pass} (tools : pass.usesTools = false) {w : Work}
    (shaped : w.tree.IsShaped) (named : w.tree.hasNamedClasses = true) (running : w.fault = none)
    (succeeds : (pass.work w).fault = none) : pass.IsIdleAt (pass.work w).tree := by
  cases pass with
  | origin root marks =>
    obtain ⟨judged, stands⟩ := (classify_turned root marks w).stands succeeds
    rw [work, stands.tree]
    exact isIdleAt_origin (Tree.classified_classified judged)
  | normalize policy =>
    obtain ⟨applicable, stands⟩ := (policy.apply_turned shaped running).stands succeeds
    rw [work, stands.tree]
    exact isIdleAt_normalize (shaped.relabel (Tree.agreesUnder_labelUnder policy w.tree))
      (applicable.normalized_normalized shaped)
  | resolve => exact isIdleAt_resolve (Tree.isSettled_resolve w.tree)
  | clearComments => exact isIdleAt_clearComments w.tree.cleared_cleared
  | backfillComments corpus =>
    obtain ⟨documentable, stands⟩ := (backfillComments_turned corpus running).stands succeeds
    rw [work, stands.tree]
    exact isIdleAt_backfillComments
      ⟨(Tree.isDocumentable_relabel_iff fun x _ => mayRead_documentedLabel corpus x).2 documentable,
        w.tree.relabel_documentedLabel_again corpus⟩
  | rename targets pattern =>
    obtain ⟨recasable, stands⟩ := (rename_turned targets pattern running).stands succeeds
    rw [work, stands.tree]
    exact isIdleAt_rename
      (Tree.renamed_eq_self_of_convert fun y hy => Tree.convert_renamed recasable hy)
  | signalEvents options => exact isIdleAt_work_of_eventRule? named rfl running succeeds
  | hookEvents options => exact isIdleAt_work_of_eventRule? named rfl running succeeds
  | requestInlines request hasBuilder => cases tools
  | undefined => cases succeeds
  | undefinedEvents => exact isIdleAt_work_of_eventRule? named rfl running succeeds

/-- At any time from the dump on, a pass that is run and comes to an end has nothing left to do: run
again at once it comes to an end, leaves the tree as it is, and renames and adds nothing. -/
theorem work_twice {source : String} {document : Value} {start : Tree}
    (loaded : Tree.ofDocument source document = .ok start) {w : Work} (steps : start.Steps w.tree)
    (running : w.fault = none) {pass : Pass} (tools : pass.usesTools = false)
    (succeeds : (pass.work w).fault = none) : pass.IsIdleAt (pass.work w).tree := by
  have orderly : w.tree.IsOrderly :=
    Tree.isLasting_isOrderly.steps steps (Tree.isLoaded_ofDocument loaded).isOrderly
  exact isIdleAt_work tools orderly.shaped orderly.named running succeeds

/-- In the sample, once it is classified, the pass for signals adds an event, and has nothing to do
when it is run again. -/
theorem work_twice_sample :
    let pass := Pass.signalEvents { sections := [.text "Q_SIGNALS"] }
    let w : Work := { tree := ((origin (.ofString "include/QtGui") {}).work
      { tree := Tree.sampleTree }).tree }
    (pass.work w).tree.survey.length = w.tree.survey.length + 1 ∧
      pass.IsIdleAt (pass.work w).tree := by
  intro pass w
  have steps : Tree.sampleTree.Steps w.tree := .single (.pass _ { tree := Tree.sampleTree } rfl)
  have succeeds : (pass.work w).fault = none := Option.isNone_iff_eq_none.1 (by decide +kernel)
  exact ⟨by decide +kernel, work_twice Tree.ofDocument_sampleDump steps rfl rfl succeeds⟩

end Pass

end Bindery
