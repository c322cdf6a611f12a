import Bindery.Proofs.Attachment
import Bindery.Proofs.Relabelling

/-!
# Passes that relabel, exactly

Every pass but those for events relabels a tree, provided that it does not stop; and it stops just
if something specific is missing. A row of steps is described by the condition under which it does
not stop and the labels that it leads to then.
-/

namespace Bindery

namespace Work

/-- The work has not stopped, and its tree is another one relabelled. -/
structure Stands (t : Tree) (os : List Outcome) (f : Site → Label → Label) (w : Work) : Prop where
  /-- It has not stopped. -/
  fault : w.fault = none
  /-- The tree is relabelled. -/
  tree : w.tree = t.relabel f
  /-- The outcomes to come are these. -/
  outcomes : w.outcomes = os

/-- The work has relabelled a tree if that was possible, and has stopped otherwise. -/
structure Turned (t : Tree) (os : List Outcome) (possible : Prop) (f : Site → Label → Label)
    (w : Work) : Prop where
  /-- What was possible is done. -/
  done : possible → w.Stands t os f
  /-- Work that did not stop was possible. -/
  needed : w.fault = none → possible

/-- The work has not stopped and has come to a tree. -/
structure IsAt (t : Tree) (os : List Outcome) (w : Work) : Prop where
  /-- It has not stopped. -/
  fault : w.fault = none
  /-- This is the tree. -/
  tree : w.tree = t
  /-- The outcomes to come are these. -/
  outcomes : w.outcomes = os

/-- The work has come to a tree if that was possible, and has stopped otherwise. -/
structure Reaches (t : Tree) (os : List Outcome) (possible : Prop) (w : Work) : Prop where
  /-- What was possible is done. -/
  done : possible → w.IsAt t os
  /-- Work that did not stop was possible. -/
  needed : w.fault = none → possible

variable {t : Tree} {os : List Outcome} {f g : Site → Label → Label} {w : Work}

/-- Work that relabels a tree comes to the relabelled tree. -/
theorem Turned.reaches {possible : Prop} (h : w.Turned t os possible f) :
    w.Reaches (t.relabel f) os possible :=
  ⟨fun hp => ⟨(h.done hp).fault, (h.done hp).tree, (h.done hp).outcomes⟩, h.needed⟩

/-- A tree stands as it is. -/
theorem stands_self (h : w.fault = none) : w.Stands w.tree w.outcomes fun _ l => l :=
  ⟨h, (Tree.relabel_eq_self_iff.2 fun _ _ => rfl).symm, rfl⟩

/-- Work that did not stop has relabelled the tree. -/
theorem Turned.stands {possible : Prop} (h : w.Turned t os possible f) (hw : w.fault = none) :
    possible ∧ w.Stands t os f := ⟨h.needed hw, h.done (h.needed hw)⟩

/-- Conditions for coming to a tree that say the same can be exchanged. -/
theorem Reaches.congr {p q : Prop} (h : w.Reaches t os p) (hpq : p ↔ q) : w.Reaches t os q :=
  ⟨fun hq => h.done (hpq.2 hq), fun hw => hpq.1 (h.needed hw)⟩

/-- What stands was possible at any rate. -/
theorem Stands.turned {possible : Prop} (h : w.Stands t os f) (hp : possible) :
    w.Turned t os possible f := ⟨fun _ => h, fun _ => hp⟩

/-- Work that has stopped did what was not possible. -/
theorem turned_of_stopped {possible : Prop} (h : w.fault ≠ none) (hp : ¬ possible) :
    w.Turned t os possible f := ⟨fun h => absurd h hp, fun hw => absurd hw h⟩

/-- Conditions that say the same can be exchanged. -/
theorem Turned.congr {p q : Prop} (h : w.Turned t os p f) (hpq : p ↔ q) :
    w.Turned t os q f := ⟨fun hq => h.done (hpq.2 hq), fun hw => hpq.1 (h.needed hw)⟩

/-- Only what happens at the places of the tree matters. -/
theorem Stands.congr (h : w.Stands t os f)
    (hf : ∀ x ∈ t.survey, f x.site x.label = g x.site x.label) : w.Stands t os g :=
  ⟨h.fault, h.tree.trans (Tree.relabel_congr hf), h.outcomes⟩

/-- Relabelling once more. -/
theorem Stands.relabel {w' : Work} {h : Site → Label → Label} (hw : w.Stands t os f)
    (fault : w'.fault = w.fault) (tree : w'.tree = w.tree.relabel g)
    (outcomes : w'.outcomes = w.outcomes)
    (labels : ∀ x ∈ t.survey, g (x.site.relabel f) (f x.site x.label) = h x.site x.label) :
    w'.Stands t os h where
  fault := fault.trans hw.fault
  tree := by
    rw [tree, hw.tree, Tree.relabel_relabel]
    exact Tree.relabel_congr labels
  outcomes := outcomes.trans hw.outcomes

/-- A step after others. -/
theorem Turned.andThen {p q : Prop} {next : Work → Work} (h : w.Turned t os p f)
    (hn : ∀ w : Work, w.Stands t os f → (next w).Turned t os q g) :
    (w.andThen next).Turned t os (p ∧ q) g := by
  rw [Work.andThen]
  cases hw : w.fault with
  | none =>
    have hs := h.stands hw
    exact (hn w hs.2).congr (by simp [hs.1])
  | some fault =>
    refine turned_of_stopped (by simp [hw]) fun hpq => ?_
    have := (h.done hpq.1).fault
    simp [hw] at this

/-- Work that has stopped does nothing for further items. -/
theorem forEach_of_stopped {α : Type} (items : List α) (step : α → Work → Work)
    (h : w.fault ≠ none) : w.forEach items step = w := by
  induction items with
  | nil => rfl
  | cons a items ih =>
    have ha : w.andThen (step a) = w := by
      rw [Work.andThen]
      cases hw : w.fault with
      | none => exact absurd hw h
      | some fault => rfl
    rw [forEach, List.foldl_cons, ha]
    exact ih

/-- Steps for all items, where the labels after some of them depend on the items so far. -/
theorem Stands.forEach {α : Type} {step : α → Work → Work} {possible : α → Prop}
    (labels : List α → Site → Label → Label)
    (hstep : ∀ done a, ∀ w : Work, w.Stands t os (labels done) →
      (step a w).Turned t os (possible a) (labels (done ++ [a])))
    (items : List α) (hw : w.Stands t os (labels [])) :
    (w.forEach items step).Turned t os (∀ a ∈ items, possible a) (labels items) := by
  -- The items done so far only grow, so the statement is about those that remain.
  suffices h : ∀ (done : List α) (w : Work), w.Stands t os (labels done) →
      (w.forEach items step).Turned t os (∀ a ∈ items, possible a) (labels (done ++ items)) from
    h [] w hw
  induction items with
  | nil =>
    intro done w hw
    rw [List.append_nil]
    exact hw.turned (by simp)
  | cons a items ih =>
    intro done w hw
    have ha : w.andThen (step a) = step a w := by rw [Work.andThen, hw.fault]
    have hc : w.forEach (a :: items) step = (step a w).forEach items step := by
      rw [Work.forEach, List.foldl_cons, ha]
      rfl
    have hs := hstep done a w hw
    rw [hc]
    cases hf : (step a w).fault with
    | none =>
      have hs := hs.stands hf
      have hi := ih (done ++ [a]) (step a w) hs.2
      rw [List.append_assoc] at hi
      exact hi.congr (by simp [hs.1])
    | some fault =>
      have hne : (step a w).fault ≠ none := by simp [hf]
      rw [forEach_of_stopped items step hne]
      refine turned_of_stopped hne fun hp => hne ?_
      exact (hs.done (hp a List.mem_cons_self)).fault

/-- Steps for all items, each of which modifies some labels: afterwards those are modified that
some item asked for. -/
theorem Stands.forEach_modify {α : Type} {step : α → Work → Work} (possible : α → Prop)
    (asks : α → Site → Label → Bool) (modify : Label → Label)
    (again : ∀ l, modify (modify l) = modify l)
    (hstep : ∀ (done : List α) (a : α) (w : Work),
      (w.Stands t os fun s l => if done.any (asks · s l) then modify (f s l) else f s l) →
        (step a w).Turned t os (possible a) fun s l =>
          if asks a s l then modify (if done.any (asks · s l) then modify (f s l) else f s l)
          else if done.any (asks · s l) then modify (f s l) else f s l)
    (items : List α) (hw : w.Stands t os f) :
    (w.forEach items step).Turned t os (∀ a ∈ items, possible a) fun s l =>
      if items.any (asks · s l) then modify (f s l) else f s l := by
  refine Stands.forEach (fun done s l => if done.any (asks · s l) then modify (f s l) else f s l)
    (fun done a w hw => ?_) items (hw.congr (by simp))
  have hs := hstep done a w hw
  refine ⟨fun hp => (hs.done hp).congr fun x _ => ?_, hs.needed⟩
  simp only [List.any_append, List.any_cons, List.any_nil, Bool.or_false]
  cases done.any (asks · x.site x.label) <;> cases asks a x.site x.label <;> simp [again]

end Work

/-! ## Where walks stop -/

/-- A walk does not stop just if nothing is wrong anywhere on its way. -/
theorem Stop.first?_eq_none_iff {check : Located → Option Fault} {xs : List Located} :
    Stop.first? check xs = none ↔ ∀ x ∈ xs, check x = none := by
  rw [first?, List.findSome?_eq_none_iff]
  simp

/-- What has no fault has a result. -/
theorem Fault.of?_eq_none_iff {α : Type} {e : Except Fault α} :
    Fault.of? e = none ↔ ∃ a, e = .ok a := by
  cases e <;> simp [of?]

/-- Work that relabels up to where a walk stops. -/
theorem Work.turned_stopAt {w w' : Work} {stop : Option Stop} {f : Site → Label → Label}
    (hw : w.fault = none) (fault : w'.fault = w.fault)
    (tree : w'.tree = w.tree.relabel fun s l => if s.isBefore stop then f s l else l)
    (outcomes : w'.outcomes = w.outcomes) :
    (w'.stopAt stop).Turned w.tree w.outcomes (stop = none) f := by
  cases stop with
  | none =>
    refine Stands.turned ⟨fault.trans hw, tree.trans ?_, outcomes⟩ rfl
    exact Tree.relabel_congr fun x _ => rfl
  | some halt => exact turned_of_stopped (by simp [stopAt, stop]) (by simp)

/-! ## Passes -/

/-- Where a declaration comes from. -/
def Located.origin (root : WrittenPath) (x : Located) : Origin :=
  Origin.ofPath root x.chain.rootPath

mutual

/-- The survey of a declaration at a place is its survey on top, seen from there. -/
theorem Decl.survey_graft (d : Decl) (s r : Site) :
    d.survey (s.graft r) = (d.survey r).map fun x => ⟨s.graft x.site, x.decl⟩ :=
  match d with
  | .node l ms => by
    rw [survey, survey, List.map_cons,
      surveyAll_graft ms s ((s.graft r).inside l) (r.inside l) 0
        (fun i => s.graft_child_inside r l i)]
termination_by structural d

/-- The survey of a list at a place is its survey on top, seen from there. -/
theorem Decl.surveyAll_graft (ds : List Decl) (s s' r : Site) (i : Nat)
    (h : ∀ j, s'.child j = s.graft (r.child j)) :
    surveyAll ds s' i = (surveyAll ds r i).map fun x => ⟨s.graft x.site, x.decl⟩ :=
  match ds with
  | [] => rfl
  | d :: ds => by
    rw [surveyAll, surveyAll, List.map_append, h i, survey_graft d s (r.child i),
      surveyAll_graft ds s s' r (i + 1) h]
termination_by structural ds

end

/-- Classifying units comes to an end just if no native unit stops it. -/
theorem classifyUnits_fault (root : WrittenPath) (marks : PrivateMarks) (ds : List Decl) :
    ∀ tally : Tally, (classifyUnits root marks ds tally).fault = none ↔
      ∀ d ∈ ds, Origin.ofPath root d.unitPath = .native → d.pruningStop? marks = none := by
  induction ds with
  | nil => exact fun tally => iff_of_true rfl (by simp)
  | cons d ds ih =>
    intro tally
    rw [classifyUnits, List.forall_mem_cons]
    cases ho : Origin.ofPath root d.unitPath with
    | unresolved => simpa using ih _
    | foreign => simpa using ih _
    | native =>
      cases hp : d.pruningStop? marks with
      | none => simpa [Decl.prune, hp] using ih _
      | some halt => simp [Decl.prune, hp]

/-- Pruning a unit comes to an end just if every name that it reaches can be judged. -/
theorem Decl.pruningStop?_eq_none_iff (marks : PrivateMarks) (d : Decl) :
    d.pruningStop? marks = none ↔ ∀ x ∈ d.survey Site.top, isReached marks x.site = true →
      ∃ v, marks.judge x.label.name = .ok v := by
  rw [pruningStop?, Stop.first?_eq_none_iff]
  refine forall₂_congr fun x _ => ?_
  split
  · next h => rw [Fault.of?_eq_none_iff, forall_prop_of_true h]
  · next h => exact iff_of_true rfl fun hr => absurd hr h

/-- Classification comes to an end if every name can be judged that pruning reaches in native
units. -/
def Tree.IsJudged (root : WrittenPath) (marks : PrivateMarks) (t : Tree) : Prop :=
  ∀ x ∈ t.survey, x.origin root = .native → Decl.isReached marks x.site = true →
    ∃ v, marks.judge x.label.name = .ok v

/-- Units can be judged one by one. -/
theorem Tree.isJudged_iff (root : WrittenPath) (marks : PrivateMarks) (t : Tree) :
    t.IsJudged root marks ↔ ∀ d ∈ t.units, Origin.ofPath root d.unitPath = .native →
      d.pruningStop? marks = none := by
  have hg : ∀ (i : Nat) (y : Located),
      (⟨(Site.top.child i).graft y.site, y.decl⟩ : Located).chain = y.chain ∧
        Decl.isReached marks ((Site.top.child i).graft y.site) = Decl.isReached marks y.site := by
    intro i y
    constructor
    · simp [Located.chain, Site.chain, Site.graft, Site.child, Site.top, Located.label]
    · simp [Decl.isReached, Site.graft, Site.child, Site.top]
  constructor
  · intro h d hd ho
    obtain ⟨i, hi⟩ := List.getElem?_of_mem hd
    refine (d.pruningStop?_eq_none_iff marks).2 fun y hy hr => ?_
    have hx : (⟨(Site.top.child i).graft y.site, y.decl⟩ : Located) ∈ t.survey := by
      refine Decl.mem_surveyAll.2 ⟨i, d, hi, ?_⟩
      rw [Nat.zero_add, ← (Site.top.child i).graft_top, Decl.survey_graft]
      exact List.mem_map.2 ⟨y, hy, rfl⟩
    refine h ⟨(Site.top.child i).graft y.site, y.decl⟩ hx ?_ ((hg i y).2.trans hr)
    rw [Located.origin, (hg i y).1, Decl.rootPath_of_mem_survey hy, ho]
  · intro h x hx ho hr
    obtain ⟨i, d, hi, hx⟩ := Decl.mem_surveyAll.1 hx
    rw [Nat.zero_add, ← (Site.top.child i).graft_top, Decl.survey_graft] at hx
    obtain ⟨y, hy, rfl⟩ := List.mem_map.1 hx
    rw [Located.origin, (hg i y).1, Decl.rootPath_of_mem_survey hy] at ho
    rw [(hg i y).2] at hr
    exact (d.pruningStop?_eq_none_iff marks).1 (h d (List.mem_of_getElem? hi) ho) y hy hr

/-- Classification relabels a tree if every name can be judged, and stops otherwise. -/
theorem classify_turned (root : WrittenPath) (marks : PrivateMarks) (w : Work) :
    (classify root marks w).Turned w.tree w.outcomes (w.tree.IsJudged root marks)
      (originLabel root marks) := by
  obtain ⟨stop, hf, ht⟩ := classify_tree root marks w
  have hj : (classify root marks w).fault = none ↔ w.tree.IsJudged root marks :=
    (classifyUnits_fault root marks w.tree.units w.tally).trans (w.tree.isJudged_iff root marks).symm
  refine ⟨fun h => ⟨hj.2 h, ?_, rfl⟩, hj.1⟩
  obtain rfl : stop = none := by
    have hn := hf.symm.trans (hj.2 h)
    rwa [Option.map_eq_none_iff] at hn
  rw [ht]
  exact Tree.relabel_congr fun x _ => rfl

/-- Resolution relabels every tree. -/
theorem resolve_stands {w : Work} (hw : w.fault = none) :
    (resolve w).Stands w.tree w.outcomes resolvedLabel := ⟨hw, rfl, rfl⟩

/-- Clearing comments relabels every tree. -/
theorem clearComments_stands {w : Work} (hw : w.fault = none) :
    (clearComments w).Stands w.tree w.outcomes fun _ l => { l with comment := .null } :=
  ⟨hw, rfl, rfl⟩

/-- Attaching documentation comes to an end if everything that wants some can be looked up. -/
def Tree.IsDocumentable (corpus : Corpus) (t : Tree) : Prop :=
  ∀ x ∈ t.survey, Bindery.isDocumentable x.site x.label = true →
    ∃ found, corpus.lookupAt x.site x.label = .ok found

/-- Attaching documentation relabels a tree if everything that wants some can be looked up, and
stops otherwise. -/
theorem backfillComments_turned (corpus : Corpus) {w : Work} (hw : w.fault = none) :
    (backfillComments corpus w).Turned w.tree w.outcomes (w.tree.IsDocumentable corpus)
      (documentedLabel corpus) := by
  rw [backfillComments]
  refine Work.Turned.congr (Work.turned_stopAt hw rfl rfl rfl) ?_
  rw [documentationStop?, Stop.first?_eq_none_iff, Tree.IsDocumentable]
  simp only [List.mem_filter, and_imp, Fault.of?_eq_none_iff]

/-- Renaming comes to an end if every name to be recased can be. -/
def Tree.IsRecasable (targets : List RenameTarget) (pattern : CasePattern) (t : Tree) : Prop :=
  ∀ x ∈ t.survey, isRenameable targets x.site x.label = true →
    ∃ name, pattern.convert x.label.name = .ok name

/-- Renaming relabels a tree if every name to be recased can be, and stops otherwise. -/
theorem rename_turned (targets : List RenameTarget) (pattern : CasePattern) {w : Work}
    (hw : w.fault = none) :
    (rename targets pattern w).Turned w.tree w.outcomes (w.tree.IsRecasable targets pattern)
      (renamedLabel targets pattern) := by
  rw [rename]
  refine Work.Turned.congr (Work.turned_stopAt hw rfl rfl rfl) ?_
  rw [renamingStop?, Stop.first?_eq_none_iff, Tree.IsRecasable]
  simp only [List.mem_filter, and_imp, Fault.of?_eq_none_iff]

/-- Attaching events comes to an end if it does for every class. -/
def Tree.IsAttachable (rule : EventRule) (t : Tree) : Prop :=
  ∀ x ∈ t.survey, isEventful x.site x.label = true → (rule.roster x.site x.decl).fault = none

/-- Where the walk over some classes stops, if it does: at the first with a fault. -/
def Stop.ofRosters (visited : List (Located × Roster)) : Option Stop :=
  visited.findSome? fun v => v.2.fault.map fun fault => Stop.mk v.1.site.address fault

/-- Whether a walk that stops at some place, if at all, gets as far as a site. -/
def Site.isVisited (s : Site) (stop : Option Stop) : Bool :=
  s.isBefore stop || stop.any fun halt => s.address == halt.address

namespace EventRule

variable (rule : EventRule) (t : Tree)

/-- The classes that are visited when events are attached, and what becomes of them. -/
def visited : List (Located × Roster) :=
  upToFirst (fun v => v.2.fault.isSome)
    ((t.survey.filter fun x => isEventful x.site x.label).map fun x =>
      (x, rule.roster x.site x.decl))

/-- What a declaration gets when events are attached as far as that is possible. -/
def gains (s : Site) (d : Decl) : List Decl :=
  if isEventful s d.label && s.isVisited (Stop.ofRosters (rule.visited t)) then
    (rule.roster s d).attached
  else []

end EventRule

/-- Attaching events extends the tree by what is gained. -/
theorem tree_attachEvents (rule : EventRule) (w : Work) :
    (attachEvents rule w).tree = w.tree.extend (rule.gains w.tree) := by
  rw [attachEvents, Work.tree_stopAt]
  rfl

/-- The walk over the classes of a tree does not stop just if attaching comes to an end for each. -/
theorem ofRosters_visited_eq_none_iff {rule : EventRule} {t : Tree} :
    Stop.ofRosters (rule.visited t) = none ↔ t.IsAttachable rule := by
  have going : Stop.ofRosters (rule.visited t) = none ↔
      ∀ v ∈ rule.visited t, v.2.fault.isSome = false := by
    rw [Stop.ofRosters, List.findSome?_eq_none_iff]
    simp
  rw [going, EventRule.visited, forall_upToFirst]
  simp only [List.forall_mem_map, List.mem_filter, and_imp, Option.isSome_eq_false_iff,
    Option.isNone_iff_eq_none]
  rfl

/-- If the walk over the classes does not stop, all that rosters have attached is gained. -/
theorem EventRule.gains_of_isAttachable {rule : EventRule} {t : Tree} (h : t.IsAttachable rule) :
    rule.gains t = rule.additions := by
  funext s d
  rw [gains, additions, ofRosters_visited_eq_none_iff.2 h]
  simp [Site.isVisited, Site.isBefore]

/-- Attaching events comes to an end if and only if it does for every class. -/
theorem fault_attachEvents (rule : EventRule) {w : Work} (hw : w.fault = none) :
    (attachEvents rule w).fault = none ↔ w.tree.IsAttachable rule := by
  have stopped : (attachEvents rule w).fault = none ↔
      Stop.ofRosters (rule.visited w.tree) = none := by
    change (Work.stopAt _ (Stop.ofRosters (rule.visited w.tree))).fault = none ↔ _
    cases Stop.ofRosters (rule.visited w.tree) with
    | none => exact iff_of_true hw rfl
    | some halt => exact iff_of_false nofun nofun
  rw [stopped, ofRosters_visited_eq_none_iff]

/-- Attaching events extends a tree if it comes to an end for every class, and stops otherwise. -/
theorem attachEvents_reaches (rule : EventRule) {w : Work} (hw : w.fault = none) :
    (attachEvents rule w).Reaches (w.tree.extend rule.additions) w.outcomes
      (w.tree.IsAttachable rule) := by
  refine ⟨fun h => ⟨(fault_attachEvents rule hw).2 h, ?_, ?_⟩, (fault_attachEvents rule hw).1⟩
  · rw [tree_attachEvents, EventRule.gains_of_isAttachable h]
  · change (Work.stopAt _ (Stop.ofRosters (rule.visited w.tree))).outcomes = w.outcomes
    cases Stop.ofRosters (rule.visited w.tree) <;> rfl

end Bindery
