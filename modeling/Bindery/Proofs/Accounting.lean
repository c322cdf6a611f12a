import Bindery.Proofs.Clearing
import Bindery.Proofs.Comparison
import Bindery.Proofs.FinalTreatment
import Bindery.Proofs.Synthesis

/-!
# What adds up in a run

Declarations are counted three times in a run: by resolution, when documentation is attached, and for
the report. In between only events are added, which are counted as they are synthesized, and no
treatment changes. So the counts of a run that came to an end add up, and so do those of its first
pass, for units. Main statement: `report_accounts`.
-/

namespace Bindery

/-! ## Surveys -/

namespace Decl

/-- A list is surveyed part by part. -/
theorem surveyAll_append (ds es : List Decl) (s : Site) (i : Nat) :
    surveyAll (ds ++ es) s i = surveyAll ds s i ++ surveyAll es s (i + ds.length) := by
  induction ds generalizing i with
  | nil => rfl
  | cons d ds ih =>
    rw [List.cons_append, surveyAll, surveyAll, ih, List.append_assoc, List.length_cons,
      Nat.add_assoc, Nat.add_comm 1]

/-- A survey of declarations without members counts them. -/
theorem countP_surveyAll_leaves (p : Label → Bool) {ds : List Decl}
    (leaf : ∀ d ∈ ds, d.members = []) (s : Site) (i : Nat) :
    (surveyAll ds s i).countP (fun x => p x.label) = ds.countP fun d => p d.label := by
  induction ds generalizing i with
  | nil => rfl
  | cons d ds ih =>
    obtain ⟨l, ms⟩ := d
    obtain rfl : ms = [] := leaf _ List.mem_cons_self
    rw [surveyAll, List.countP_append, ih (fun d hd => leaf d (List.mem_cons_of_mem _ hd)),
      List.countP_cons, Nat.add_comm]
    simp [survey, surveyAll, List.countP_cons, Located.label]

mutual

/-- A survey of an extended declaration counts what was there and what was appended. -/
theorem countP_survey_extend (p : Label → Bool) {g : Site → Decl → List Decl} (d : Decl) (s : Site)
    (leaf : ∀ x ∈ survey d s, ∀ e ∈ g x.site x.decl, e.members = []) :
    (survey (extend g d s) s).countP (fun x => p x.label) =
      (survey d s).countP (fun x => p x.label) +
        ((survey d s).map fun x => (g x.site x.decl).countP fun e => p e.label).sum :=
  match d with
  | node l ms => by
    have inner := countP_surveyAll_extendAll p ms (s.inside l) 0
      fun x hx => leaf x (List.mem_cons_of_mem _ hx)
    have leaves : ∀ e ∈ g s (node l ms), e.members = [] := leaf _ List.mem_cons_self
    have own := countP_surveyAll_leaves p leaves (s.inside l)
      (0 + (extendAll g ms (s.inside l) 0).length)
    rw [extend, survey, survey, List.countP_cons, List.countP_cons, surveyAll_append,
      List.countP_append, inner, own, List.map_cons, List.sum_cons]
    change _ + _ + (if p l = true then 1 else 0) = _ + (if p l = true then 1 else 0) +
      ((g s (node l ms)).countP (fun e => p e.label) + _)
    omega
termination_by structural d

/-- A survey of a list of extended declarations counts what was there and what was appended. -/
theorem countP_surveyAll_extendAll (p : Label → Bool) {g : Site → Decl → List Decl}
    (ds : List Decl) (s : Site) (i : Nat)
    (leaf : ∀ x ∈ surveyAll ds s i, ∀ e ∈ g x.site x.decl, e.members = []) :
    (surveyAll (extendAll g ds s i) s i).countP (fun x => p x.label) =
      (surveyAll ds s i).countP (fun x => p x.label) +
        ((surveyAll ds s i).map fun x => (g x.site x.decl).countP fun e => p e.label).sum :=
  match ds with
  | [] => rfl
  | d :: ds => by
    have first := countP_survey_extend p d (s.child i)
      fun x hx => leaf x (List.mem_append_left _ hx)
    have others := countP_surveyAll_extendAll p ds s (i + 1)
      fun x hx => leaf x (List.mem_append_right _ hx)
    rw [extendAll, surveyAll, surveyAll, List.countP_append, List.countP_append, first, others,
      List.map_append, List.sum_append]
    omega
termination_by structural ds

end

end Decl

namespace Tree

variable {t : Tree}

/-- A survey of an extended tree counts what was there and what was appended. -/
theorem countP_extend (p : Label → Bool) {g : Site → Decl → List Decl} (hg : t.GainsUnder g) :
    (t.extend g).survey.countP (fun x => p x.label) =
      t.survey.countP (fun x => p x.label) + t.total fun s d => (g s d).countP fun e => p e.label :=
  Decl.countP_surveyAll_extendAll p t.units Site.top 0 fun x hx e he => (hg x hx e he).leaf

/-- The number of declarations of a treatment is a matter of the survey. -/
theorem of_treatmentCounts (t : Tree) (treatment : Treatment) :
    t.treatmentCounts.of treatment =
      t.survey.countP fun x => decide (x.label.treatment = treatment) := by
  rw [treatmentCounts, TreatmentCounts.of_ofList, List.count, List.countP_map]
  rfl

/-- Every declaration has one of the treatments. -/
theorem length_survey (t : Tree) :
    t.survey.length = t.treatmentCounts.of .generate + t.treatmentCounts.of .link +
      t.treatmentCounts.of .ignore := by
  simp only [of_treatmentCounts]
  induction t.survey with
  | nil => rfl
  | cons x xs ih =>
    rw [List.length_cons, ih, List.countP_cons, List.countP_cons, List.countP_cons]
    cases x.label.treatment <;> simp <;> omega

/-- What keeps treatments keeps their numbers. -/
theorem treatmentCounts_relabel {f : Site → Label → Label}
    (hf : ∀ x ∈ t.survey, (f x.site x.label).treatment = x.label.treatment) :
    (t.relabel f).treatmentCounts = t.treatmentCounts := by
  rw [treatmentCounts, treatmentCounts, survey_relabel, List.map_map]
  refine congrArg TreatmentCounts.ofList (List.map_congr_left fun x hx => ?_)
  rw [Function.comp, Located.label_relabel, hf x hx]

/-- Events are generated, so they raise the number of what is generated and no other. -/
theorem treatmentCounts_extend {g : Site → Decl → List Decl} (hg : t.GainsUnder g)
    (treatment : Treatment) :
    (t.extend g).treatmentCounts.of treatment = t.treatmentCounts.of treatment +
      if treatment = .generate then t.total fun s d => (g s d).length else 0 := by
  rw [of_treatmentCounts, of_treatmentCounts,
    countP_extend (fun l => decide (l.treatment = treatment)) hg, Tree.total]
  congr 1
  have events : ∀ x ∈ t.survey, ((g x.site x.decl).countP fun e =>
      decide (e.label.treatment = treatment)) =
        if treatment = .generate then (g x.site x.decl).length else 0 := by
    intro x hx
    have generated : ∀ e ∈ g x.site x.decl, e.label.treatment = .generate :=
      fun e he => (hg x hx e he).treatment
    split
    · next h =>
      exact List.countP_eq_length.2 fun e he => decide_eq_true ((generated e he).trans h.symm)
    · next h =>
      refine List.countP_eq_zero.2 fun e he => ?_
      rw [generated e he, decide_eq_true_iff]
      exact fun he => h he.symm
  rw [List.map_congr_left events]
  split
  · rfl
  · simp

end Tree

/-! ## Passes -/

/-- What classifying a unit adds to a counter if it comes to an end. -/
def Decl.originCount (root : WrittenPath) (marks : PrivateMarks) (key : String) (d : Decl) : Nat :=
  match Origin.ofPath root d.unitPath with
  | .unresolved => if key = "skipped_units" then 1 else 0
  | .foreign => (if key = "linked" then d.size else 0) + if key = "linked_units" then 1 else 0
  | .native => (if key = "native_units" then 1 else 0) +
      if key = "private_ignored" then (d.prune marks).ignored else 0

/-- The counters that classifying a unit raises if it comes to an end. -/
def Decl.originRaises (root : WrittenPath) (marks : PrivateMarks) (d : Decl) :
    List (String × Nat) :=
  match Origin.ofPath root d.unitPath with
  | .unresolved => [("skipped_units", 1)]
  | .foreign => [("linked", d.size), ("linked_units", 1)]
  | .native => [("native_units", 1), ("private_ignored", (d.prune marks).ignored)]

/-- Classifying units raises the counters of one after the other. -/
theorem tally_classifyUnits (root : WrittenPath) (marks : PrivateMarks) (ds : List Decl) :
    ∀ tally : Tally, (classifyUnits root marks ds tally).fault = none →
      (classifyUnits root marks ds tally).tally =
        tally.addAll (ds.flatMap (Decl.originRaises root marks)) := by
  induction ds with
  | nil => exact fun _ _ => rfl
  | cons d ds ih =>
    intro tally h
    rw [List.flatMap_cons, Decl.originRaises, Tally.addAll, List.foldl_append]
    rw [classifyUnits] at h ⊢
    cases ho : Origin.ofPath root d.unitPath with
    | unresolved =>
      rw [ho] at h
      exact ih _ h
    | foreign =>
      rw [ho] at h
      exact ih _ h
    | native =>
      rw [ho] at h
      dsimp only at h ⊢
      cases hp : (d.prune marks).fault with
      | some fault =>
        rw [hp] at h
        cases h
      | none =>
        rw [hp] at h
        exact ih _ h

/-- The reading of a counter after some were raised. -/
theorem Tally.count_addAll (key : String) (raises : List (String × Nat)) : ∀ tally : Tally,
    (tally.addAll raises).count key =
      tally.count key + (raises.map fun r => if key = r.1 then r.2 else 0).sum := by
  induction raises with
  | nil => exact fun _ => rfl
  | cons r raises ih =>
    intro tally
    rw [addAll, List.foldl_cons, List.map_cons, List.sum_cons, ← Nat.add_assoc, ← count_add]
    exact ih _

/-- Classifying units raises a counter by what each of them adds. -/
theorem count_classifyUnits (root : WrittenPath) (marks : PrivateMarks) (key : String)
    (ds : List Decl) (tally : Tally) (h : (classifyUnits root marks ds tally).fault = none) :
    (classifyUnits root marks ds tally).tally.count key =
      tally.count key + (ds.map (Decl.originCount root marks key)).sum := by
  have one : ∀ d : Decl, d.originCount root marks key =
      ((d.originRaises root marks).map fun r => if key = r.1 then r.2 else 0).sum := by
    intro d
    rw [Decl.originCount, Decl.originRaises]
    cases Origin.ofPath root d.unitPath <;> simp
  rw [tally_classifyUnits root marks ds tally h, Tally.count_addAll, List.map_flatMap,
    List.flatMap_def, List.sum_flatten, List.map_map]
  exact congrArg (fun f => tally.count key + (ds.map f).sum) (funext fun d => (one d).symm)

/-- In a unit, everything is of the origin of the unit. -/
theorem Decl.origin_of_mem_survey {root : WrittenPath} {d : Decl} {i : Nat} {x : Located}
    (hx : x ∈ d.survey (Site.top.child i)) : x.origin root = Origin.ofPath root d.unitPath := by
  obtain ⟨inner, hi⟩ := (Decl.survey_below hx).2
  have last : x.chain.getLast? = some d.label := by
    rw [← hi]
    exact List.getLast?_concat
  have path : x.chain.rootPath = d.unitPath := by
    rw [Chain.rootPath, last, Option.map_some, unitPath, form]
    cases d.label.form <;> rfl
  rw [Located.origin, path]

/-- A unit has as many declarations wherever it stands. -/
theorem Decl.length_survey_child (d : Decl) (i : Nat) :
    (d.survey (Site.top.child i)).length = d.size := by
  have h := d.survey_graft (Site.top.child i) Site.top
  rw [Site.graft_top] at h
  rw [h, List.length_map, size]

/-- What is linked when units are classified is what is foreign. -/
theorem sum_originCount_linked (root : WrittenPath) (marks : PrivateMarks) (ds : List Decl) :
    ∀ i : Nat, (ds.map (Decl.originCount root marks "linked")).sum =
      (Decl.surveyAll ds Site.top i).countP fun x => decide (x.origin root = .foreign) := by
  induction ds with
  | nil => exact fun _ => rfl
  | cons d ds ih =>
    intro i
    rw [List.map_cons, List.sum_cons, Decl.surveyAll, List.countP_append, ← ih (i + 1)]
    congr 1
    have same : ∀ x ∈ d.survey (Site.top.child i),
        (decide (x.origin root = .foreign) = true ↔
          decide (Origin.ofPath root d.unitPath = .foreign) = true) := by
      intro x hx
      rw [Decl.origin_of_mem_survey hx]
    rw [List.countP_congr same, Decl.originCount]
    cases Origin.ofPath root d.unitPath with
    | foreign => simp [List.countP_true, d.length_survey_child i]
    | _ => simp

/-- Every unit is counted once when units are classified. -/
theorem sum_originCount_units (root : WrittenPath) (marks : PrivateMarks) (ds : List Decl) :
    (ds.map (Decl.originCount root marks "skipped_units")).sum +
        (ds.map (Decl.originCount root marks "linked_units")).sum +
        (ds.map (Decl.originCount root marks "native_units")).sum = ds.length := by
  induction ds with
  | nil => rfl
  | cons d ds ih =>
    have one : d.originCount root marks "skipped_units" + d.originCount root marks "linked_units" +
        d.originCount root marks "native_units" = 1 := by
      simp only [Decl.originCount]
      cases Origin.ofPath root d.unitPath <;> simp
    simp only [List.map_cons, List.sum_cons, List.length_cons]
    omega

/-- Resolution counts the treatments that it leaves. -/
theorem tally_resolve (w : Work) :
    (resolve { w with tally := {} }).tally.treatments = some w.tree.resolve.treatmentCounts ∧
      (resolve { w with tally := {} }).tally.counters.lookup "generation_kinds" = none := by
  refine ⟨rfl, ?_⟩
  change (Tally.addSome {} "propagated" _).counters.lookup "generation_kinds" = none
  rw [Tally.addSome]
  split <;> rfl

/-- What attaching documentation counts, if it comes to an end. -/
theorem tally_backfillComments {corpus : Corpus} {w : Work} (h : w.tree.IsDocumentable corpus) :
    let wanted := w.tree.survey.filter fun x => isDocumentable x.site x.label
    (backfillComments corpus w).tally =
      (w.tally.addSome "documented" (wanted.countP (isDocumented corpus))).addSome "undocumented"
        (wanted.length - wanted.countP (isDocumented corpus)) := by
  intro wanted
  have going : documentationStop? corpus wanted = none := by
    rw [documentationStop?, Stop.first?_eq_none_iff]
    intro x hx
    obtain ⟨hx, hd⟩ := List.mem_filter.1 hx
    exact Fault.of?_eq_none_iff.2 (h x hx hd)
  have reached : (wanted.filter fun x => x.site.isBefore none) = wanted :=
    List.filter_eq_self.2 fun _ _ => rfl
  change (Work.stopAt _ (documentationStop? corpus wanted)).tally = _
  rw [going, ← reached]
  rfl

/-- What is to be documented is counted, with or without a text, if attaching comes to an end. -/
theorem count_backfillComments (corpus : Corpus) {w : Work} (running : w.fault = none)
    (h : (backfillComments corpus { w with tally := {} }).fault = none) :
    let tally := (backfillComments corpus { w with tally := {} }).tally
    tally.count "documented" + tally.count "undocumented" =
      w.tree.survey.countP fun x => isDocumentable x.site x.label := by
  intro tally
  have documentable :=
    (backfillComments_turned corpus (w := { w with tally := {} }) running).needed h
  simp only [tally, tally_backfillComments documentable]
  rw [w.tree.survey.countP_eq_length_filter]
  generalize w.tree.survey.filter (fun x => isDocumentable x.site x.label) = wanted
  have found : wanted.countP (isDocumented corpus) ≤ wanted.length := List.countP_le_length
  have unread : ∀ key, Tally.count {} key = 0 := fun _ => rfl
  simp only [Tally.count_addSome, unread, String.reduceEq, if_true, if_false]
  omega

/-- What renaming counts, if it comes to an end. -/
theorem tally_rename {targets : List RenameTarget} {pattern : CasePattern} {w : Work}
    (h : w.tree.IsRecasable targets pattern) : (rename targets pattern w).tally =
      w.tally.addSome "renamed" (w.tree.survey.countP fun x =>
        (renamedLabel targets pattern x.site x.label).name != x.label.name) := by
  have going : renamingStop? targets pattern w.tree = none := by
    rw [renamingStop?, Stop.first?_eq_none_iff]
    intro x hx
    obtain ⟨hx, hr⟩ := List.mem_filter.1 hx
    exact Fault.of?_eq_none_iff.2 (h x hx hr)
  rw [rename, going]
  rfl

/-- What a pass for events counts as synthesized is what it appends, if it comes to an end. -/
theorem count_synthesized (rule : EventRule) {w : Work} (running : w.fault = none)
    (h : (attachEvents rule { w with tally := {} }).fault = none) :
    (attachEvents rule { w with tally := {} }).tally.count "synthesized" =
      w.tree.total fun s d => (rule.additions s d).length := by
  have attachable := (fault_attachEvents rule (w := { w with tally := {} }) running).1 h
  have count := (count_attachEvents rule { w with tally := {} }).2
  rw [rule.sum_attached, EventRule.gains_of_isAttachable attachable] at count
  rw [count]
  exact Nat.zero_add _

/-- Where classes have full names, the pass for hooks attaches the events of its rule. -/
theorem Pass.work_hookEvents {options : HookOptions} {w : Work}
    (h : ((hookEvents options).work w).fault = none) :
    (hookEvents options).work w = attachEvents (options.rule w.tree.baseIndex) w := by
  rw [work, Tree.bases] at h ⊢
  split at h
  · next named => rw [if_pos named]; rfl
  · cases h

/-! ## Runs -/

namespace RunSettings

variable (settings : RunSettings) {corpus : Corpus} {t : Tree}

/-- Documentation and renaming keep the treatments. -/
theorem treatmentCounts_renamed :
    (settings.renamed corpus t).treatmentCounts = t.treatmentCounts := by
  have keeps : ∀ {t : Tree} {f : Site → Label → Label},
      (∀ x : Located, x.MayRead (f x.site x.label)) →
        (t.relabel f).treatmentCounts = t.treatmentCounts :=
    fun hf => Tree.treatmentCounts_relabel fun x _ => (hf x).treatment
  rw [renamed, Tree.renamed, keeps fun x => mayRead_renamedLabel _ _ x, Tree.documented,
    keeps fun x => mayRead_documentedLabel corpus x, Tree.cleared, keeps fun x => x.mayRead_comment _]

/-- Afterwards, what is generated is what was and the events, and all else is as before. -/
theorem treatmentCounts_finish (corpus : Corpus) (t : Tree) (treatment : Treatment) :
    (settings.finish corpus t).treatmentCounts.of treatment =
      t.treatmentCounts.of treatment + if treatment = .generate then
        ((settings.renamed corpus t).total fun s d => (settings.signals.rule.additions s d).length) +
          (settings.signalled corpus t).total fun s d =>
            ((settings.hookRule (settings.signalled corpus t)).additions s d).length
      else 0 := by
  rw [finish, Tree.withEvents, Tree.treatmentCounts_extend (Tree.gainsUnder_additions _ _),
    signalled, Tree.withEvents, Tree.treatmentCounts_extend (Tree.gainsUnder_additions _ _),
    treatmentCounts_renamed]
  split <;> omega

end RunSettings

/-- In a settled tree, what is to be documented is what is generated but for units. -/
theorem Tree.IsSettled.countP_isDocumentable {t : Tree} (h : t.IsSettled) :
    (t.cleared.survey.countP fun x => isDocumentable x.site x.label) =
      t.survey.countP fun x => !x.label.form.isUnit && decide (x.label.treatment = .generate) := by
  rw [Tree.survey_cleared, List.countP_map]
  refine List.countP_congr fun x hx => ?_
  have generated : x.site.isGenerated x.label = decide (x.label.treatment = .generate) := by
    rw [Bool.eq_iff_iff, decide_eq_true_iff]
    exact h.isGenerated_iff hx
  rw [Function.comp, Located.label_cleared, Located.cleared, isDocumentable, Site.isGenerated_cleared,
    generated]
  rfl

/-- The figures of a report on a run add up, given the tree that the run began with, the tree that
resolution left and the final one. -/
structure Report.AddsUp (r : Value) (root : WrittenPath) (start settled final : Tree) : Prop where
  /-- The declarations are those of all treatments. -/
  total : r.figure ["stats", "total_declarations"] =
    r.figure ["stats", "generation_kinds", Treatment.generate.word] +
      r.figure ["stats", "generation_kinds", Treatment.link.word] +
      r.figure ["stats", "generation_kinds", Treatment.ignore.word]
  /-- They are the declarations of the final tree. -/
  length : r.figure ["stats", "total_declarations"] = final.survey.length
  /-- As many are linked as resolution counted. -/
  link : r.figure ["stats", "generation_kinds", Treatment.link.word] =
    r.figure ["passes", "resolve", "generation_kinds", Treatment.link.word]
  /-- As many are ignored as resolution counted. -/
  ignore : r.figure ["stats", "generation_kinds", Treatment.ignore.word] =
    r.figure ["passes", "resolve", "generation_kinds", Treatment.ignore.word]
  /-- What is generated is what resolution counted and the synthesized events. -/
  generate : r.figure ["stats", "generation_kinds", Treatment.generate.word] =
    r.figure ["passes", "resolve", "generation_kinds", Treatment.generate.word] +
      r.figure ["passes", "signal_events", "synthesized"] +
      r.figure ["passes", "event_events", "synthesized"]
  /-- Resolution counted the declarations of the tree that it left. -/
  resolved : ∀ treatment : Treatment,
    r.figure ["passes", "resolve", "generation_kinds", treatment.word] =
      settled.survey.countP fun x => decide (x.label.treatment = treatment)
  /-- All that resolution counted as generated, but for units, was found documented or not. -/
  documented : r.figure ["passes", "backfill_comments", "documented"] +
      r.figure ["passes", "backfill_comments", "undocumented"] =
    settled.survey.countP fun x =>
      !x.label.form.isUnit && decide (x.label.treatment = .generate)
  /-- What was linked at first is what stood in foreign units. -/
  linked : r.figure ["passes", "origin", "linked"] =
    start.survey.countP fun x => decide (x.origin root = .foreign)
  /-- Every unit was skipped, linked or native. -/
  units : r.figure ["passes", "origin", "skipped_units"] +
      r.figure ["passes", "origin", "linked_units"] +
      r.figure ["passes", "origin", "native_units"] = start.units.length

/-- A pass of a pipeline that came to an end has done its work where the passes before it lead, and
the pipeline reports what it recorded. -/
theorem Pipeline.exists_record {first last : List Pass} {pass : Pass} {t t₁ : Tree}
    {os os₁ : List Outcome} {possible : Prop} (lead : Pass.Lead first t os possible t₁ os₁)
    {w : Work} (hw : w.IsAt t os) (distinct : ((first ++ pass :: last).map Pass.name).Nodup)
    (completes : ((ofPasses (first ++ pass :: last)).run w).2.fault = none) :
    ∃ (before : Work) (stage : Stage), before.fault = none ∧ before.tree = { t₁ with stage } ∧
      (pass.work { before with tally := {} }).fault = none ∧
      ((ofPasses (first ++ pass :: last)).run w).1.stats.lookup pass.name =
        some (pass.work { before with tally := {} }).tally.toValue := by
  obtain ⟨running, ends, hs⟩ := exists_station hw.fault completes
  have led := (lead.of_completes (passes_ofPasses first) hw running).2
  have names : (((ofPasses (first ++ pass :: last)).run w).1.map fun s => s.pass.name) =
      (first ++ pass :: last).map Pass.name := by
    have kept := passes_run (ofPasses (first ++ pass :: last)) w
    rw [passes_ofPasses] at kept
    exact (List.map_map.symm : _ = _).trans (congrArg (List.map Pass.name) kept)
  exact ⟨_, _, running, led.tree, ends, lookup_stats (names ▸ distinct) hs⟩

namespace RunSettings

variable {settings : RunSettings} {root : WrittenPath} {policy : Policy} {corpus : Corpus}
  {request : Option InlinesRequest} {hasBuilder : Bool} {t : Tree} {os : List Outcome} {w : Work}

/-- The passes of a run have names of their own. -/
theorem nodup_passes :
    ((settings.passes root policy corpus request hasBuilder).map Pass.name).Nodup := by
  cases request <;> exact of_decide_eq_true rfl

/-- The passes of a run, run on a tree that nothing has stopped, have come to an end. -/
structure Ends (settings : RunSettings) (root : WrittenPath) (policy : Policy) (corpus : Corpus)
    (request : Option InlinesRequest) (hasBuilder : Bool) (t : Tree) (os : List Outcome)
    (w : Work) : Prop where
  /-- The tree is loaded. -/
  shaped : t.IsShaped
  /-- It is the tree of the work, which nothing has stopped. -/
  start : w.IsAt t os
  /-- The passes have come to an end. -/
  completes : ((Pipeline.ofPasses (settings.passes root policy corpus request hasBuilder)).run
    w).2.fault = none

namespace Ends

variable (h : settings.Ends root policy corpus request hasBuilder t os w)

include h

/-- What classification has recorded. -/
theorem origin : ∃ tally : Tally,
    ((Pipeline.ofPasses (settings.passes root policy corpus request hasBuilder)).run
      w).1.stats.lookup "origin" = some tally.toValue ∧
    ∀ key, tally.count key = (t.units.map (Decl.originCount root settings.marks key)).sum := by
  obtain ⟨before, stage, -, tree, ends, record⟩ :=
    Pipeline.exists_record (Pass.lead_nil t os) h.start nodup_passes h.completes
  refine ⟨_, record, fun key => ?_⟩
  have count := count_classifyUnits root settings.marks key before.tree.units {} ends
  have units : before.tree.units = t.units := by rw [tree]
  rw [units] at count
  rw [Pass.work, classify, units, count]
  exact Nat.zero_add _

/-- What resolution has recorded. -/
theorem resolve : ∃ tally : Tally,
    ((Pipeline.ofPasses (settings.passes root policy corpus request hasBuilder)).run
      w).1.stats.lookup "resolve" = some tally.toValue ∧
    tally.treatments = some (t.settle root settings.marks policy).treatmentCounts ∧
    tally.counters.lookup "generation_kinds" = none := by
  have shaped := h.shaped.classified root settings.marks
  obtain ⟨before, stage, -, tree, -, record⟩ :=
    Pipeline.exists_record ((Pass.lead_origin root settings.marks t os).append
      (Pass.lead_normalize policy shaped os)) h.start nodup_passes h.completes
  refine ⟨_, record, (tally_resolve before).1.trans ?_, (tally_resolve before).2⟩
  rw [tree]
  rfl

/-- Documentation was attached to the settled tree without its comments. -/
theorem exists_backfill : ∃ (before : Work) (stage : Stage), before.fault = none ∧
    before.tree = { (t.settle root settings.marks policy).cleared with stage } ∧
    ((Pass.backfillComments corpus).work { before with tally := {} }).fault = none ∧
    ((Pipeline.ofPasses (settings.passes root policy corpus request hasBuilder)).run
      w).1.stats.lookup "backfill_comments" =
        some ((Pass.backfillComments corpus).work { before with tally := {} }).tally.toValue :=
  Pipeline.exists_record ((settings.lead_taggingPasses root policy h.shaped os).append
    (Pass.lead_clearComments _ os)) h.start nodup_passes h.completes

/-- What attaching documentation has recorded. -/
theorem backfillComments : ∃ tally : Tally,
    ((Pipeline.ofPasses (settings.passes root policy corpus request hasBuilder)).run
      w).1.stats.lookup "backfill_comments" = some tally.toValue ∧
    tally.count "documented" + tally.count "undocumented" =
      (t.settle root settings.marks policy).cleared.survey.countP
        fun x => isDocumentable x.site x.label := by
  obtain ⟨before, stage, running, tree, ends, record⟩ := h.exists_backfill
  refine ⟨_, record, (count_backfillComments corpus running ends).trans ?_⟩
  rw [tree]
  rfl

/-- What the events for signals have recorded. -/
theorem signalEvents : ∃ tally : Tally,
    ((Pipeline.ofPasses (settings.passes root policy corpus request hasBuilder)).run
      w).1.stats.lookup "signal_events" = some tally.toValue ∧
    tally.count "synthesized" =
      (settings.renamed corpus (t.settle root settings.marks policy)).total
        fun s d => (settings.signals.rule.additions s d).length := by
  obtain ⟨before, stage, running, tree, ends, record⟩ :=
    Pipeline.exists_record ((settings.lead_taggingPasses root policy h.shaped os).append
      ((Pass.lead_clearComments _ os).append ((Pass.lead_backfillComments corpus _ os).append
        (Pass.lead_rename settings.targets settings.pattern _ os)))) h.start nodup_passes h.completes
  refine ⟨_, record, (count_synthesized settings.signals.rule running ends).trans ?_⟩
  rw [tree]
  rfl

/-- What the events for hooks have recorded. -/
theorem hookEvents : ∃ tally : Tally,
    ((Pipeline.ofPasses (settings.passes root policy corpus request hasBuilder)).run
      w).1.stats.lookup "event_events" = some tally.toValue ∧
    tally.count "synthesized" =
      (settings.signalled corpus (t.settle root settings.marks policy)).total fun s d =>
        ((settings.hookRule (settings.signalled corpus
          (t.settle root settings.marks policy))).additions s d).length := by
  obtain ⟨before, stage, running, tree, ends, record⟩ :=
    Pipeline.exists_record ((settings.lead_taggingPasses root policy h.shaped os).append
      ((Pass.lead_clearComments _ os).append ((Pass.lead_backfillComments corpus _ os).append
        ((Pass.lead_rename settings.targets settings.pattern _ os).append
          (Pass.lead_signalEvents settings.signals _ os))))) h.start nodup_passes h.completes
  have work := Pass.work_hookEvents ends
  rw [work] at ends record
  refine ⟨_, record, (count_synthesized _ running ends).trans ?_⟩
  rw [tree]
  rfl

/-- The tree that the last pass leaves. -/
theorem finished : ∃ stage : Stage,
    ((Pipeline.ofPasses (settings.passes root policy corpus request hasBuilder)).run w).2.tree =
      { settings.finish corpus (t.settle root settings.marks policy) with stage } :=
  ⟨_, ((settings.lead_passes root policy corpus request hasBuilder h.shaped os).of_completes
    (Pipeline.passes_ofPasses _) h.start h.completes).2.tree⟩

/-- What is found in the trees that resolution and the last pass leave. -/
theorem surveys :
    ((Pipeline.ofPasses (settings.taggingPasses root policy)).run w).2.tree.survey =
        (t.settle root settings.marks policy).survey ∧
      ((Pipeline.ofPasses (settings.passes root policy corpus request hasBuilder)).run
        w).2.tree.survey = (settings.finish corpus (t.settle root settings.marks policy)).survey := by
  obtain ⟨stage, last⟩ := h.finished
  have split : settings.passes root policy corpus request hasBuilder =
      settings.taggingPasses root policy ++
        .clearComments :: ((settings.laterPasses corpus).tail ++ lastPasses request hasBuilder) := rfl
  have running := (Pipeline.exists_station h.start.fault (split ▸ h.completes)).1
  have first := ((settings.lead_taggingPasses root policy h.shaped os).of_completes
    (Pipeline.passes_ofPasses _) h.start running).2.tree
  rw [first, last]
  exact ⟨rfl, rfl⟩

/-- A report says how resolution left the treatments. -/
theorem figure_resolved {r : Report} {final : Tree} (free : ∀ e ∈ r.extra, "passes" ≠ e.1)
    (passes : r.passes =
      ((Pipeline.ofPasses (settings.passes root policy corpus request hasBuilder)).run w).1.stats)
    (treatment : Treatment) :
    (r.toValue final).figure ["passes", "resolve", "generation_kinds", treatment.word] =
      (t.settle root settings.marks policy).treatmentCounts.of treatment := by
  obtain ⟨tally, here, treatments, noCounter⟩ := h.resolve
  rw [← passes] at here
  exact (Report.figure_passes free here _).trans
    (Tally.figure_treatments treatments noCounter treatment)

/-- The figures of a report on the passes add up. -/
theorem addsUp {report : Report} (free : ∀ e ∈ report.extra, "passes" ≠ e.1 ∧ "stats" ≠ e.1) :
    let ran := (Pipeline.ofPasses (settings.passes root policy corpus request hasBuilder)).run w
    Report.AddsUp ({ report with passes := ran.1.stats }.toValue ran.2.tree) root t
      ((Pipeline.ofPasses (settings.taggingPasses root policy)).run w).2.tree ran.2.tree := by
  intro ran
  obtain ⟨settled, final⟩ := h.surveys
  obtain ⟨origin, originHere, originCount⟩ := h.origin
  obtain ⟨backfill, backfillHere, documented⟩ := h.backfillComments
  obtain ⟨signals, signalsHere, signalled⟩ := h.signalEvents
  obtain ⟨hooks, hooksHere, hooked⟩ := h.hookEvents
  let written : Report := { report with passes := ran.1.stats }
  have noPasses : ∀ e ∈ written.extra, "passes" ≠ e.1 := fun e he => (free e he).1
  have noStats : ∀ e ∈ written.extra, "stats" ≠ e.1 := fun e he => (free e he).2
  let r := written.toValue ran.2.tree
  have counter {name : String} {tally : Tally}
      (here : ran.1.stats.lookup name = some tally.toValue) {key : String}
      (hk : key ≠ "generation_kinds") (hk' : key ≠ "library_path") :
      r.figure ["passes", name, key] = tally.count key :=
    Report.figure_counter noPasses here hk hk'
  have kinds (treatment : Treatment) : r.figure ["stats", "generation_kinds", treatment.word] =
      (settings.finish corpus (t.settle root settings.marks policy)).treatmentCounts.of treatment := by
    rw [Report.figure_treatment noStats, Tree.treatmentCounts, final]
    rfl
  have resolved (treatment : Treatment) :
      r.figure ["passes", "resolve", "generation_kinds", treatment.word] =
        (t.settle root settings.marks policy).treatmentCounts.of treatment :=
    h.figure_resolved noPasses rfl treatment
  have total : r.figure ["stats", "total_declarations"] =
      (settings.finish corpus (t.settle root settings.marks policy)).survey.length := by
    rw [Report.figure_total noStats, final]
  have isSettled : (t.settle root settings.marks policy).IsSettled := Tree.isSettled_resolve _
  have treatment (treatment : Treatment) :=
    settings.treatmentCounts_finish corpus (t.settle root settings.marks policy) treatment
  exact {
    total := by
      rw [total, kinds, kinds, kinds, Tree.length_survey]
    length := by
      rw [total, final]
    link := by
      rw [kinds, resolved, treatment]
      rfl
    ignore := by
      rw [kinds, resolved, treatment]
      rfl
    generate := by
      rw [kinds, resolved, treatment, counter signalsHere (by decide) (by decide), signalled,
        counter hooksHere (by decide) (by decide), hooked, if_pos rfl, Nat.add_assoc]
    resolved := fun treatment => by
      rw [resolved, Tree.of_treatmentCounts, settled]
    documented := by
      rw [counter backfillHere (by decide) (by decide), counter backfillHere (by decide) (by decide),
        documented, isSettled.countP_isDocumentable, settled]
    linked := by
      rw [counter originHere (by decide) (by decide), originCount,
        sum_originCount_linked root settings.marks t.units 0]
      rfl
    units := by
      rw [counter originHere (by decide) (by decide), counter originHere (by decide) (by decide),
        counter originHere (by decide) (by decide), originCount, originCount, originCount,
        sum_originCount_units] }

end Ends

end RunSettings

/-- The figures of the report on a run of a loaded tree that came to an end add up. -/
theorem report_accounts {source : String} {document : Value} {t : Tree}
    (loaded : Tree.ofDocument source document = .ok t) {info : ModuleInfo} {config : Value}
    {corpus : Corpus} {request : Option InlinesRequest} {hasBuilder : Bool} {w : Work}
    (tree : w.tree = t)
    (completes : (runModule info config corpus request hasBuilder w).2.fault = none)
    (report : Report) (free : ∀ e ∈ report.extra, "passes" ≠ e.1 ∧ "stats" ≠ e.1) :
    ∃ pipeline, (runModule info config corpus request hasBuilder w).1 = some pipeline ∧
      pipeline.passes[2]? = some .resolve ∧
      Report.AddsUp
        ({ report with passes := pipeline.stats }.toValue
          (runModule info config corpus request hasBuilder w).2.tree)
        info.root t ((Pipeline.ofPasses (pipeline.passes.take 3)).run w).2.tree
        (runModule info config corpus request hasBuilder w).2.tree := by
  subst tree
  have shaped := (Tree.isLoaded_ofDocument loaded).isShaped
  obtain ⟨policy, settings, -, -, run⟩ := exists_passes_of_runModule completes
  rw [run] at completes ⊢
  have start : Work.IsAt w.tree w.outcomes { w with fault := none } := ⟨rfl, rfl, rfl⟩
  have ended : settings.Ends info.root policy corpus request hasBuilder w.tree w.outcomes
      { w with fault := none } := ⟨shaped, start, completes⟩
  refine ⟨_, rfl, ?_, ?_⟩
  · rw [Pipeline.passes_run, Pipeline.passes_ofPasses]
    rfl
  have first : (Pipeline.passes ((Pipeline.ofPasses (settings.passes info.root policy corpus request
      hasBuilder)).run { w with fault := none }).1).take 3 =
        settings.taggingPasses info.root policy := by
    rw [Pipeline.passes_run, Pipeline.passes_ofPasses]
    rfl
  rw [first]
  exact ended.addsUp free

/-- The figures of the report on the sample add up, whatever the parser was told. -/
theorem report_accounts_sample :
    let ran := runModule .sample (.mapping Config.defaults)
      ⟨[(⟨"Palette", "changed()"⟩, "Emitted when a color changes.")]⟩ none false
      { tree := Tree.sampleTree }
    ran.2.fault = none ∧ ∃ pipeline, ran.1 = some pipeline ∧ pipeline.passes[2]? = some .resolve ∧
      Report.AddsUp
        (Report.toValue
          { configHash := "", module := .text "Gui", passes := pipeline.stats
            extra := [("parser_options", .null)] } ran.2.tree)
        (.ofString "include/QtGui") Tree.sampleTree
        ((Pipeline.ofPasses (pipeline.passes.take 3)).run { tree := Tree.sampleTree }).2.tree
        ran.2.tree := by
  have completes : (runModule .sample (.mapping Config.defaults)
      ⟨[(⟨"Palette", "changed()"⟩, "Emitted when a color changes.")]⟩ none false
      { tree := Tree.sampleTree }).2.fault = none :=
    Option.isNone_iff_eq_none.1 (by decide +kernel)
  have free : ∀ e ∈ [("parser_options", Value.null)], "passes" ≠ e.1 ∧ "stats" ≠ e.1 := by
    simp
  let report : Report :=
    { configHash := "", module := .text "Gui", extra := [("parser_options", .null)] }
  exact ⟨completes, report_accounts Tree.ofDocument_sampleDump rfl completes report free⟩

end Bindery
