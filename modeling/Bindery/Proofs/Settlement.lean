import Bindery.Proofs.Permanence

/-!
# What resolution settles

Resolution makes the treatment of every declaration say whether it is ignored, and the passes that
leave tags alone keep it so. Going back to classification or a policy does not lower the stage of a
tree but unsettles it: linking tags what is ignored, and what is suppressed anew does not take its
members along. Main statement: `ignored_iff_since_resolved`.
-/

namespace Bindery

namespace Tree

/-- The treatment of every declaration says whether it is ignored. -/
def IsSettled (t : Tree) : Prop :=
  ∀ x ∈ t.survey, x.label.treatment = .ignore ↔ x.isIgnored = true

/-- Whatever is above an ignored declaration, what is below is ignored too. -/
theorem isIgnored_of_isIgnored_above {t : Tree} {x y : Located} (hx : x ∈ t.survey)
    (hy : y ∈ t.survey) (ha : x.site.address <+: y.site.address) (h : x.isIgnored = true) :
    y.isIgnored = true := by
  obtain ⟨z, hz, hzx, ho⟩ := (isIgnored_iff hx).1 h
  exact (isIgnored_iff hy).2 ⟨z, hz, hzx.trans ha, ho⟩

/-- An ignored declaration has the treatment of ignored declarations after resolution. -/
theorem treatment_resolvedLabel {x : Located} (h : x.isIgnored = true) :
    (resolvedLabel x.site x.label).treatment = .ignore := by
  rw [resolvedLabel]
  split
  · rfl
  · next hi =>
    have h : x.site.isIgnored x.label = true := h
    simpa [isInherited, h] using hi

/-- What is out after resolution was ignored before. -/
theorem isIgnored_of_isOut_resolvedLabel {x : Located}
    (h : (resolvedLabel x.site x.label).isOut = true) : x.isIgnored = true := by
  rw [resolvedLabel] at h
  split at h
  · next hi =>
    rw [isInherited, Bool.and_eq_true] at hi
    exact hi.2
  · exact Located.isIgnored_of_isOut h

/-- Resolution settles every tree. -/
theorem isSettled_resolve (t : Tree) : t.resolve.IsSettled := by
  intro y hy
  refine ⟨Located.isIgnored_of_treatment, fun hi => ?_⟩
  obtain ⟨z', hz', hzy, ho⟩ := (isIgnored_iff hy).1 hi
  obtain ⟨z, hz, rfl⟩ := mem_survey_relabel.1 hz'
  obtain ⟨x, hx, rfl⟩ := mem_survey_relabel.1 hy
  rw [Located.label_relabel] at ho ⊢
  exact treatment_resolvedLabel
    (isIgnored_of_isIgnored_above hz hx hzy (isIgnored_of_isOut_resolvedLabel ho))

/-- Declarations that keep their tags are out just if they were. -/
theorem isIgnored_relabel_of_hasTags {t : Tree} {f : Site → Label → Label}
    (hf : ∀ x ∈ t.survey, x.HasTags (f x.site x.label)) {x : Located} (hx : x ∈ t.survey) :
    (x.relabel f).isIgnored = true ↔ x.isIgnored = true := by
  have hout : ∀ z ∈ t.survey, (f z.site z.label).isOut = z.label.isOut := fun z hz => by
    rw [Label.isOut, Label.isSuppressed, (hf z hz).suppression, (hf z hz).treatment]
    rfl
  rw [isIgnored_iff (mem_survey_relabel.2 ⟨x, hx, rfl⟩), isIgnored_iff hx]
  constructor
  · rintro ⟨z', hz', hzx, ho⟩
    obtain ⟨z, hz, rfl⟩ := mem_survey_relabel.1 hz'
    rw [Located.label_relabel, hout z hz] at ho
    exact ⟨z, hz, hzx, ho⟩
  · rintro ⟨z, hz, hzx, ho⟩
    refine ⟨z.relabel f, mem_survey_relabel.2 ⟨z, hz, rfl⟩, hzx, ?_⟩
    rwa [Located.label_relabel, hout z hz]

/-- A change that sets no tags leaves a tree settled. -/
theorem Change.isSettled {t t' : Tree} (h : t.Change Located.HasTags t') (hs : t.IsSettled) :
    t'.IsSettled := by
  cases h with
  | relabel f hf =>
    intro y hy
    obtain ⟨x, hx, rfl⟩ := mem_survey_relabel.1 hy
    rw [isIgnored_relabel_of_hasTags hf hx, Located.label_relabel, (hf x hx).treatment]
    exact hs x hx
  | extend f hf =>
    intro y hy
    rcases survey_extend_cases (fun x hx e he => (hf x hx e he).leaf) y hy with
      ⟨x, hx, rfl⟩ | ⟨x, hx, j, e, he, rfl⟩
    · rw [Located.isIgnored_eq, Located.chain_extend, Located.label_extend]
      exact hs x hx
    · have hg := hf x hx e (List.mem_of_getElem? he)
      rw [hg.isIgnored_appended, Located.label_member, hg.treatment]
      simp

/-- Changes that set no tags leave a tree settled. -/
theorem Changes.isSettled {t t' : Tree} (h : t.Changes Located.HasTags t') (hs : t.IsSettled) :
    t'.IsSettled := by
  induction h with
  | refl => exact hs
  | tail _ hstep ih => exact hstep.isSettled ih

end Tree

/-! ## Passes since the last resolution -/

/-- Of the passes that were started, the latest first, those after the last that settled
treatments. -/
def Pass.sinceSettled (started : List Pass) : List Pass := started.takeWhile fun p => !p.isSettling

/-- The passes that a run starts, up to the first that is refused or stops. -/
def Pipeline.started : Pipeline → Work → List Pass
  | [], _ => []
  | s :: rest, w =>
    if w.tree.stage < s.pass.needs then []
    else
      match s.runDirectly w with
      | (s, done) =>
        match done.fault with
        | some _ => [s.pass]
        | none => s.pass :: started rest (s.advance done)

namespace Tree

/-- Runs of pipelines on a tree, with the passes that were started, the latest first, and the tree
they led to. -/
inductive Ran (start : Tree) : List Pass → Tree → Prop
  /-- Nothing was run yet. -/
  | nothing : Ran start [] start
  /-- One more pipeline was run, as far as it got. -/
  | run {passes : List Pass} (p : Pipeline) (w : Work) (before : Ran start passes w.tree) :
    Ran start ((p.started w).reverse ++ passes) (p.run w).2.tree

/-- What passes that were started tell of a tree. -/
structure Reflects (t : Tree) (passes : List Pass) : Prop where
  /-- A tree that has come as far as resolution was resolved. -/
  reached : .resolved ≤ t.stage → ∃ pass ∈ passes, pass.isSettling = true
  /-- A tree that was resolved is settled, unless tags were set since. -/
  settled : (∃ pass ∈ passes, pass.isSettling = true) →
    (∀ pass ∈ Pass.sinceSettled passes, pass.isTagging = false) → t.IsSettled

/-- A loaded tree was not resolved. -/
theorem IsLoaded.reflects {t : Tree} (h : t.IsLoaded) : t.Reflects [] where
  reached hs := by
    rw [h.stage] at hs
    exact absurd hs (by decide)
  settled hp := by simp at hp

end Tree

/-- Only resolution brings a tree as far as resolution. -/
theorem Pass.needs_of_leadsTo {pass : Pass} (h : .resolved ≤ pass.leadsTo) :
    pass.isSettling = true ∨ .resolved ≤ pass.needs := by
  cases pass with
  | resolve => exact Or.inl rfl
  | origin _ _ | normalize _ | undefined =>
    dsimp only [leadsTo] at h
    exact absurd h (by decide)
  | _ =>
    dsimp only [needs]
    exact Or.inr (by decide)

namespace Tree

variable {t t' : Tree} {passes : List Pass}

/-- What is told of a tree is told of it at a later stage, if it was resolved by then. -/
theorem Reflects.advance (h : t.Reflects passes) {stage : Stage}
    (hs : .resolved ≤ stage → ∃ pass ∈ passes, pass.isSettling = true) :
    Reflects { t with stage } passes := ⟨hs, h.settled⟩

/-- Starting a pass that the tree is ready for. -/
theorem Reflects.work {w : Work} (h : w.tree.Reflects passes) (pass : Pass) :
    (pass.work w).tree.Reflects (pass :: passes) where
  reached hs := by
    rw [(pass.work_changes w).stage] at hs
    obtain ⟨p, hp, hps⟩ := h.reached hs
    exact ⟨p, List.mem_cons_of_mem _ hp, hps⟩
  settled hp hq := by
    cases hset : pass.isSettling with
    | true =>
      cases pass with
      | resolve => exact isSettled_resolve w.tree
      | _ => simp [Pass.isSettling] at hset
    | false =>
      have hc : Pass.sinceSettled (pass :: passes) = pass :: Pass.sinceSettled passes := by
        rw [Pass.sinceSettled, List.takeWhile_cons_of_pos (by rw [hset]; rfl)]
        rfl
      rw [hc] at hq
      have hp : ∃ p ∈ passes, p.isSettling = true := by
        obtain ⟨p, hp, hps⟩ := hp
        rcases List.mem_cons.1 hp with rfl | hp
        · rw [hset] at hps
          exact absurd hps (by simp)
        · exact ⟨p, hp, hps⟩
      have hs : w.tree.IsSettled :=
        h.settled hp fun p hp => hq p (List.mem_cons_of_mem _ hp)
      exact (Pass.work_changes_hasTags (hq pass List.mem_cons_self) hset w).isSettled hs

/-- Running a pipeline, however far it gets. -/
theorem Reflects.run (p : Pipeline) : ∀ {passes : List Pass} {w : Work}, w.tree.Reflects passes →
    (p.run w).2.tree.Reflects ((p.started w).reverse ++ passes) := by
  induction p with
  | nil => exact fun h => h
  | cons s rest ih =>
    intro passes w h
    have hw : (s.runDirectly w).2.tree.Reflects (s.pass :: passes) :=
      Reflects.work (w := { w with tally := s.tally }) h s.pass
    rw [Pipeline.run, Pipeline.started]
    split
    · exact h
    · next ready =>
      have ready : s.pass.needs ≤ w.tree.stage := Nat.le_of_not_lt ready
      dsimp only
      cases (s.runDirectly w).2.fault with
      | some fault => exact hw
      | none =>
        dsimp only
        rw [List.reverse_cons, List.append_assoc]
        refine ih (hw.advance fun hs => ?_)
        rcases Stage.le_later hs with hs | hs
        · exact hw.reached hs
        · rcases Pass.needs_of_leadsTo hs with hset | hn
          · exact ⟨s.pass, List.mem_cons_self, hset⟩
          · refine hw.reached ?_
            rw [Pipeline.stage_runDirectly]
            exact Stage.le_trans hn ready

/-- What was started tells of the tree after any runs. -/
theorem Ran.reflects {start : Tree} (hl : start.IsLoaded) (h : start.Ran passes t) :
    t.Reflects passes := by
  induction h with
  | nothing => exact hl.reflects
  | run p w _ ih => exact .run p ih

/-- In every state that runs of pipelines lead a loaded tree to, what has the treatment of ignored
declarations is ignored; and in every such state at or behind the stage of resolution, what is
ignored has that treatment unless tags were set since the tree was last resolved. -/
theorem ignored_iff_since_resolved {source : String} {document : Value} {start : Tree}
    (loaded : ofDocument source document = .ok start) (ran : start.Ran passes t)
    (stage : .resolved ≤ t.stage)
    (quiet : ∀ pass ∈ Pass.sinceSettled passes, pass.isTagging = false) :
    ∀ x ∈ t.survey, x.label.treatment = .ignore ↔ x.isIgnored = true :=
  let told := ran.reflects (isLoaded_ofDocument loaded)
  told.settled (told.reached stage) quiet

/-- The passes up to resolution, and some more. -/
def resolvingPipeline (more : List Pass) : Pipeline :=
  .ofPasses ([.origin (.ofString "include/QtGui") {}, .normalize {}, .resolve] ++ more)

/-- A private class and what is in it have the treatment of ignored declarations once the tree was
resolved, also after its comments were cleared. -/
theorem ignored_iff_after_clearing :
    let t := ((resolvingPipeline [.clearComments]).run { tree := sampleTree }).2.tree
    ofDocument "dump.yml" sampleDump = .ok sampleTree ∧
      t.survey.map (·.isIgnored) = [false, true, true, false, false, false, false] ∧
      ∀ x ∈ t.survey, x.label.treatment = .ignore ↔ x.isIgnored = true := by
  refine ⟨ofDocument_sampleDump, by decide +kernel, ?_⟩
  exact ignored_iff_since_resolved ofDocument_sampleDump
    (.run (resolvingPipeline [.clearComments]) { tree := sampleTree } .nothing)
    (by decide +kernel) (by decide +kernel)

/-- Not every tree at the stage of resolution is settled: if the headers of a private class are
classified once more, now as those of another module, the class is linked, and yet ignored. -/
theorem not_settled_at_every_stage :
    ¬ ∀ (source : String) (document : Value) (start t : Tree) (passes : List Pass),
      ofDocument source document = .ok start → start.Ran passes t → .resolved ≤ t.stage →
        ∀ x ∈ t.survey, x.label.treatment = .ignore ↔ x.isIgnored = true := by
  intro h
  have hs := h "dump.yml" sampleDump sampleTree _ _ ofDocument_sampleDump
    (.run (resolvingPipeline [.origin (.ofString "include/QtCore") {}])
      { tree := sampleTree } .nothing) (by decide +kernel)
  exact absurd (fun x hx => (hs x hx).2) (by decide +kernel)

end Tree

end Bindery
