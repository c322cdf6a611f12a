import Bindery.Proofs.Finish

/-!
# The final treatment of declarations

What a run that comes to an end makes of a declaration can be read off the loaded tree. It is
ignored if it or an owner is private in a unit of the module itself, or is suppressed by the policy;
otherwise it is linked if its unit belongs to another module, and generated if not. Main statement:
`runModule_treatment`.
-/

namespace Bindery

namespace Tree

variable {root : WrittenPath} {marks : PrivateMarks} {p : Policy} {t t' : Tree}

/-- Whether a declaration of a loaded tree is ruled out by itself: by its name, if it stands below a
unit of the module, or by the policy. -/
def isRuledOut (root : WrittenPath) (marks : PrivateMarks) (p : Policy) (t : Tree) (x : Located) :
    Bool :=
  (!x.site.scope.isEmpty && x.origin root == .native && marks.isPrivate x.label.name) ||
    p.suppresses t x.site x.label

/-- The treatment that a run leads to, for a declaration of the loaded tree. -/
def finalTreatment (root : WrittenPath) (marks : PrivateMarks) (p : Policy) (t : Tree)
    (x : Located) : Treatment :=
  if t.survey.any fun y =>
      y.site.address.isPrefixOf x.site.address && t.isRuledOut root marks p y then .ignore
  else if x.origin root = .foreign then .link
  else .generate

/-- What stands above a declaration comes from where it comes from. -/
theorem origin_above {x y : Located} (hx : x ∈ t.survey) (hy : y ∈ t.survey)
    (h : y.site.address <+: x.site.address) : y.origin root = x.origin root := by
  obtain ⟨inner, hi⟩ := chain_suffix_of_address hx hy h
  have hl : x.chain.getLast? = y.chain.getLast? := by
    rw [← hi, List.getLast?_append_of_ne_nil _ (by simp [Located.chain, Site.chain])]
  rw [Located.origin, Located.origin, Chain.rootPath, Chain.rootPath, hl]

/-- Above every private declaration, or in its place, is one that pruning reaches. -/
theorem exists_isPruned {x : Located} (hx : x ∈ t.survey)
    (h : x.chain.dropLast.any (fun l => marks.isPrivate l.name) = true) :
    ∃ y ∈ t.survey, y.site.address <+: x.site.address ∧
      Decl.isPruned marks y.site y.label = true := by
  revert h
  refine survey_induction (P := fun x =>
    x.chain.dropLast.any (fun l => marks.isPrivate l.name) = true → ∃ y ∈ t.survey,
      y.site.address <+: x.site.address ∧ Decl.isPruned marks y.site y.label = true) ?_ ?_ x hx
  · intro i d _ h
    exact absurd h (by simp [Located.chain, Site.chain, Site.child, Site.top])
  · intro x hx ih i m hm h
    have hne : x.chain ≠ [] := by simp [Located.chain, Site.chain]
    cases hr : x.chain.dropLast.any fun l => marks.isPrivate l.name with
    | true =>
      obtain ⟨y, hy, hyx, hp⟩ := ih hr
      exact ⟨y, hy, hyx.trans (List.prefix_append _ _), hp⟩
    | false =>
      -- Nothing above is private, so pruning gets here.
      rw [Located.chain_member, List.dropLast_cons_of_ne_nil hne, List.any_cons, hr,
        Bool.or_false] at h
      refine ⟨_, member_mem_survey hx hm, List.prefix_rfl, ?_⟩
      rw [Decl.isPruned, Decl.isReached, Located.scope_member, hr, Located.label_member, h]
      simp [hne]

/-- What pruning reaches and suppresses is private and no unit. -/
theorem isPrivate_of_isPruned {x : Located} (h : Decl.isPruned marks x.site x.label = true) :
    x.site.scope ≠ [] ∧ marks.isPrivate x.label.name = true := by
  rw [Decl.isPruned, Decl.isReached, Bool.and_eq_true, Bool.and_eq_true] at h
  exact ⟨by simpa using h.1.1, h.2⟩

/-- At or above a declaration something is cut off just if something is ruled out. -/
theorem exists_isCut_iff (x : Located) :
    (∃ y ∈ t.survey, y.site.address <+: x.site.address ∧ y.isCut root marks p t = true) ↔
      ∃ y ∈ t.survey, y.site.address <+: x.site.address ∧ t.isRuledOut root marks p y = true := by
  constructor
  · rintro ⟨y, hy, hyx, hc⟩
    refine ⟨y, hy, hyx, ?_⟩
    rw [Located.isCut, Bool.or_eq_true, Bool.and_eq_true] at hc
    rw [isRuledOut, Bool.or_eq_true, Bool.and_eq_true, Bool.and_eq_true]
    refine hc.imp_left fun h => ?_
    obtain ⟨hs, hm⟩ := isPrivate_of_isPruned h.2
    exact ⟨⟨by simpa using hs, h.1⟩, hm⟩
  · rintro ⟨y, hy, hyx, hr⟩
    rw [isRuledOut, Bool.or_eq_true, Bool.and_eq_true, Bool.and_eq_true] at hr
    rcases hr with ⟨⟨hs, ho⟩, hm⟩ | hp
    · have hs : y.site.scope ≠ [] := by simpa using hs
      have hany : y.chain.dropLast.any (fun l => marks.isPrivate l.name) = true := by
        rw [Located.chain, Site.chain, List.dropLast_cons_of_ne_nil hs, List.any_cons, hm,
          Bool.true_or]
      obtain ⟨z, hz, hzy, hp⟩ := exists_isPruned hy hany
      refine ⟨z, hz, hzy.trans hyx, ?_⟩
      rw [Located.isCut, hp, origin_above hy hz hzy, ho]
      rfl
    · refine ⟨y, hy, hyx, ?_⟩
      rw [Located.isCut, hp, Bool.or_true]

/-- In a loaded tree, only what is cut off is out after classification and policy. -/
theorem IsLoaded.isOutAfter (h : t.IsLoaded) {x : Located} (hx : x ∈ t.survey) :
    x.isOutAfter root marks p t = x.isCut root marks p t := by
  have hl := h.label x hx
  have hs : x.label.isSuppressed = false := by
    rw [Label.isSuppressed, hl.suppression]
    rfl
  have ht : (x.label.treatment == Treatment.ignore) = false := by
    rw [hl.treatment]
    rfl
  rw [Located.isOutAfter, hs, ht, Bool.and_false, Bool.or_false, Bool.or_false]

/-- Classification, policy and resolution give every declaration of a loaded tree its final
treatment. -/
theorem IsLoaded.treatment_settle (h : t.IsLoaded) {x : Located} (hx : x ∈ t.survey) :
    (x.settle root marks p t).label.treatment = t.finalTreatment root marks p x := by
  have hout : (∃ y ∈ t.survey, y.site.address <+: x.site.address ∧
      y.isOutAfter root marks p t = true) ↔ (t.survey.any fun y =>
        y.site.address.isPrefixOf x.site.address && t.isRuledOut root marks p y) = true := by
    simp only [List.any_eq_true, Bool.and_eq_true, List.isPrefixOf_iff_prefix,
      ← exists_isCut_iff x]
    refine exists_congr fun y => and_congr_right fun hy => ?_
    rw [h.isOutAfter hy]
  obtain ⟨out, notOut⟩ := Tree.treatment_settle root marks p h.isShaped hx
  rw [hout] at out notOut
  rw [finalTreatment]
  split
  · next hr => exact out hr
  · next hr => rw [notOut hr, (h.label x hx).treatment]

/-! ## After resolution -/

/-- Every declaration of a tree is still there in another tree, with its tags. -/
def CarriesTags (t t' : Tree) : Prop :=
  ∀ x ∈ t.survey, ∃ y ∈ t'.survey, y.site.address = x.site.address ∧ x.HasTags y.label

/-- A change that sets no tags carries them over. -/
theorem Change.carriesTags (h : t.Change Located.HasTags t') : t.CarriesTags t' := by
  intro x hx
  cases h with
  | relabel f hf =>
    refine ⟨x.relabel f, mem_survey_relabel.2 ⟨x, hx, rfl⟩, rfl, ?_⟩
    rw [Located.label_relabel]
    exact hf x hx
  | extend f hf =>
    refine ⟨x.extend f, extend_mem_survey f x hx, rfl, ?_⟩
    rw [Located.label_extend]
    exact ⟨.refl _, rfl, rfl⟩

/-- Tags are carried over from one time to the next. -/
theorem CarriesTags.trans {t'' : Tree} (h : t.CarriesTags t') (h' : t'.CarriesTags t'') :
    t.CarriesTags t'' := by
  intro x hx
  obtain ⟨y, hy, ha, hxy⟩ := h x hx
  obtain ⟨z, hz, hb, hyz⟩ := h' y hy
  exact ⟨z, hz, hb.trans ha, hxy.agrees.trans hyz.agrees, hyz.treatment.trans hxy.treatment,
    hyz.suppression.trans hxy.suppression⟩

/-- Changes that set no tags carry them over. -/
theorem Changes.carriesTags (h : t.Changes Located.HasTags t') : t.CarriesTags t' := by
  induction h with
  | refl => exact fun x hx => ⟨x, hx, rfl, .refl _, rfl, rfl⟩
  | tail _ hstep ih => exact ih.trans hstep.carriesTags

/-- No declaration of a foreign unit is generated. -/
def LinksForeign (root : WrittenPath) (t : Tree) : Prop :=
  ∀ x ∈ t.survey, x.origin root = .foreign → x.label.treatment ≠ .generate

/-- A member comes from where its owner comes from. -/
theorem origin_member (x : Located) (i : Nat) (m : Decl) :
    (x.member i m).origin root = x.origin root := by
  have hp : Chain.rootPath (x.member i m).chain = Chain.rootPath x.chain := by
    rw [Located.chain_member, Chain.rootPath, Chain.rootPath, Located.chain, Site.chain,
      List.getLast?_cons_cons]
  rw [Located.origin, hp]
  rfl

/-- Where a declaration comes from does not change when it gets events. -/
theorem origin_extend (f : Site → Decl → List Decl) (x : Located) :
    (x.extend f).origin root = x.origin root := by
  rw [Located.origin, Located.chain_extend]
  rfl

/-- A change that sets no tags generates nothing in foreign units: events are only for what is
generated. -/
theorem Change.linksForeign (h : t.Change Located.HasTags t') (hl : t.LinksForeign root) :
    t'.LinksForeign root := by
  intro y hy ho
  cases h with
  | relabel f hf =>
    obtain ⟨x, hx, rfl⟩ := mem_survey_relabel.1 hy
    rw [origin_relabel root (fun x hx => (hf x hx).agrees) hx] at ho
    rw [Located.label_relabel, (hf x hx).treatment]
    exact hl x hx ho
  | extend f hf =>
    rcases GainsUnder.cases hf y hy with ⟨x, hx, rfl⟩ | ⟨x, hx, i, e, he, rfl⟩
    · rw [origin_extend] at ho
      rw [Located.label_extend]
      exact hl x hx ho
    · rw [origin_member, origin_extend] at ho
      have hg := he.generated
      rw [Located.isGenerated, Site.isGenerated, Bool.and_eq_true, beq_iff_eq] at hg
      exact absurd hg.1 (hl x hx ho)

/-- Changes that set no tags generate nothing in foreign units. -/
theorem Changes.linksForeign (h : t.Changes Located.HasTags t') (hl : t.LinksForeign root) :
    t'.LinksForeign root := by
  induction h with
  | refl => exact hl
  | tail _ hstep ih => exact hstep.linksForeign ih

/-- Classification, policy and resolution generate nothing in foreign units. -/
theorem linksForeign_settle (hs : t.IsShaped) : (t.settle root marks p).LinksForeign root := by
  intro y hy ho
  obtain ⟨x, hx, rfl⟩ := mem_survey_settle.1 hy
  rw [origin_settle root hx] at ho
  obtain ⟨out, notOut⟩ := treatment_settle root marks p hs hx
  by_cases h : ∃ y ∈ t.survey, y.site.address <+: x.site.address ∧
      y.isOutAfter root marks p t = true
  · rw [out h]
    intro hi
    cases hi
  · rw [notOut h, if_pos ho]
    intro hi
    cases hi

/-- In a settled tree, what is below an ignored declaration is ignored. -/
theorem IsSettled.below (h : t.IsSettled) {x y : Located} (hx : x ∈ t.survey) (hy : y ∈ t.survey)
    (ha : x.site.address <+: y.site.address) (hi : x.label.treatment = .ignore) :
    y.label.treatment = .ignore :=
  (h y hy).2 (isIgnored_of_isIgnored_above hx hy ha ((h x hx).1 hi))

/-- In a settled tree, treatments alone tell what is generated. -/
theorem IsSettled.isGenerated_iff (h : t.IsSettled) {x : Located} (hx : x ∈ t.survey) :
    x.isGenerated = true ↔ x.label.treatment = .generate := by
  rw [Located.isGenerated, Site.isGenerated, Bool.and_eq_true, beq_iff_eq, Bool.not_eq_true']
  refine and_iff_left_of_imp fun hg => ?_
  change x.isIgnored = false
  rw [← Bool.not_eq_true, ← h x hx, hg]
  intro hi
  cases hi

end Tree

/-! ## Runs -/

/-- What a run makes of a loaded tree. -/
structure Tree.IsTreated (root : WrittenPath) (marks : PrivateMarks) (p : Policy)
    (t done : Tree) : Prop where
  /-- Every declaration of the loaded tree is there with its final treatment. -/
  treatment : ∀ x ∈ t.survey, ∃ y ∈ done.survey, y.site.address = x.site.address ∧
    x.label.Agrees y.label ∧ y.label.treatment = t.finalTreatment root marks p x
  /-- Nothing is generated in foreign units. -/
  foreign : ∀ y ∈ done.survey, y.origin root = .foreign → y.label.treatment ≠ .generate
  /-- What is below an ignored declaration is ignored. -/
  below : ∀ y ∈ done.survey, ∀ z ∈ done.survey, y.site.address <+: z.site.address →
    y.label.treatment = .ignore → z.label.treatment = .ignore
  /-- The treatment of a declaration alone tells whether it is generated. -/
  generated : ∀ y ∈ done.survey, y.isGenerated = true ↔ y.label.treatment = .generate

/-- A run on a loaded tree that comes to an end treats it as the loaded tree tells. -/
theorem runModule_treatment {source : String} {document : Value} {t : Tree}
    (loaded : Tree.ofDocument source document = .ok t) {info : ModuleInfo} {config : Value}
    {corpus : Corpus} {request : Option InlinesRequest} {hasBuilder : Bool} {w : Work}
    (tree : w.tree = t)
    (completes : (runModule info config corpus request hasBuilder w).2.fault = none) :
    ∃ policy settings, runPolicy info config = .ok policy ∧
      RunSettings.ofConfig config = .ok settings ∧
      t.IsTreated info.root settings.marks policy
        (runModule info config corpus request hasBuilder w).2.tree := by
  subst tree
  have hl := Tree.isLoaded_ofDocument loaded
  obtain ⟨policy, settings, hp, hset, finishes⟩ := exists_finish hl.isShaped completes
  refine ⟨policy, settings, hp, hset, ?_⟩
  have changes : Tree.Changes Located.HasTags (w.tree.settle info.root settings.marks policy)
      (settings.finish corpus (w.tree.settle info.root settings.marks policy)) :=
    RunSettings.finish_changes.mono fun _ _ => Located.MayRead.hasTags
  have settled := changes.isSettled (Tree.isSettled_resolve _)
  rw [finishes.tree]
  refine ⟨fun x hx => ?_, changes.linksForeign (Tree.linksForeign_settle hl.isShaped),
    fun y hy z hz => settled.below hy hz, fun y hy => settled.isGenerated_iff hy⟩
  obtain ⟨y, hy, ha, htags⟩ := changes.carriesTags _ (Tree.mem_survey_settle.2 ⟨x, hx, rfl⟩)
  exact ⟨y, hy, ha, (Tree.agrees_settle hx).trans htags.agrees,
    htags.treatment.trans (hl.treatment_settle hx)⟩

/-- The module of the sample. -/
def ModuleInfo.sample : ModuleInfo where
  library := "Qt5Gui"
  includePath := "include"
  libraryPath := "lib"
  target := .text ""
  systemIncludeDirs := []
  frameworkDirs := []
  docs := .text ""
  qmake := .text "qmake"
  make := .text "make"
  platform := .text "linux"
  module := "Gui"

/-- With the default configuration, the sample is treated. -/
theorem runModule_treatment_sample :
    let done := (runModule .sample (.mapping Config.defaults) {} none false
      { tree := Tree.sampleTree }).2
    done.fault = none ∧ Tree.sampleTree.IsTreated (.ofString "include/QtGui") {}
      (Policy.base (.text "Gui")) done.tree := by
  have completes : (runModule .sample (.mapping Config.defaults) {} none false
      { tree := Tree.sampleTree }).2.fault = none :=
    Option.isNone_iff_eq_none.1 (by decide +kernel)
  obtain ⟨policy, settings, hp, hs, treated⟩ :=
    runModule_treatment Tree.ofDocument_sampleDump rfl completes
  obtain rfl : Policy.base (.text "Gui") = policy := Except.ok.inj hp
  have marks : settings.marks = {} := by
    rw [← Except.ok.inj hs]
    rfl
  rw [marks] at treated
  exact ⟨completes, treated⟩

end Bindery
