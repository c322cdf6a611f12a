import Bindery.Proofs.Stability
import Bindery.Proofs.Wording

/-!
# What a run leaves alone

Each pass writes one part of a label, and asks for this what earlier passes have made of the tree.
So what a run makes of a declaration is told by the loaded tree but for what is generated: its form
but for the mark of value types, its access by the policy, and its name by the policy or, if it is
generated, by the case of names. Finishing a settled tree is told by what it does to one declaration,
and the two are put together. Main statement: `runModule_frame`.
-/

namespace Bindery

/-! ## Finishing -/

/-- What finishing makes of a declaration: a declaration `y` at the same place that differs in its
comment and, if it is to be recased, in its name. -/
structure Located.IsFinishedAs (settings : RunSettings) (x y : Located) : Prop where
  /-- It stands where it stood. -/
  address : y.site.address = x.site.address
  /-- It is generated if it was. -/
  generated : y.isGenerated = x.isGenerated
  /-- Nothing else is changed. -/
  label : y.label = { x.label with name := y.label.name, comment := y.label.comment }
  /-- A name is recased if it is to be. -/
  recased : isRenameable settings.targets x.site x.label = true →
    settings.pattern.convert x.label.name = .ok y.label.name
  /-- Any other name is kept. -/
  name : isRenameable settings.targets x.site x.label = false → y.label.name = x.label.name

namespace Located.IsFinishedAs

variable {settings : RunSettings} {x y : Located}

/-- Gaining members does not matter. -/
theorem extend (h : x.IsFinishedAs settings y) (g : Site → Decl → List Decl) :
    x.IsFinishedAs settings (y.extend g) where
  address := h.address
  generated := by
    rw [← h.generated, isGenerated, isGenerated, label_extend, site_extend]
  label := by rw [label_extend]; exact h.label
  recased hr := by rw [label_extend]; exact h.recased hr
  name hr := by rw [label_extend]; exact h.name hr

/-- What is to be recased is still of a chosen kind and generated. -/
theorem isRenameable_eq (h : x.IsFinishedAs settings y) :
    isRenameable settings.targets y.site y.label =
      isRenameable settings.targets x.site x.label := by
  have hg : y.site.isGenerated y.label = x.site.isGenerated x.label := h.generated
  rw [isRenameable, isRenameable, hg, h.label]

end Located.IsFinishedAs

namespace Tree

variable {root : WrittenPath} {marks : PrivateMarks} {p : Policy} {t : Tree} {x y : Located}
  {settings : RunSettings} {corpus : Corpus}

/-- A declaration is an event of a generated class. -/
def IsEventOfGenerated (t : Tree) (y : Located) : Prop :=
  ∃ o ∈ t.survey, o.label.form.isClass = true ∧ o.isGenerated = true ∧
    ∃ (i : Nat) (e : Decl), e.form.isEvent = true ∧ y = o.member i e

/-- Events of generated classes are such when members are gained. -/
theorem IsEventOfGenerated.extend (h : t.IsEventOfGenerated y) (g : Site → Decl → List Decl) :
    (t.extend g).IsEventOfGenerated (y.extend g) := by
  obtain ⟨o, ho, hc, hg, i, e, he, rfl⟩ := h
  refine ⟨o.extend g, extend_mem_survey g o ho, ?_, ?_, i, _, ?_, o.extend_member g i e⟩
  · rwa [Located.label_extend]
  · rwa [Located.isGenerated, Located.label_extend]
  · have hl := Located.label_extend g (o.member i e)
    rw [Located.extend_member, Located.label_member, Located.label_member] at hl
    rwa [Decl.form, hl]

/-- With the events of a rule, a tree has its declarations and events of generated classes. -/
theorem isEventOfGenerated_of_withEvents (rule : EventRule)
    (hy : y ∈ (t.withEvents rule).survey) :
    (∃ x ∈ t.survey, x.extend rule.additions = y) ∨ (t.withEvents rule).IsEventOfGenerated y := by
  rcases withEvents_cases rule hy with kept | ⟨x, hx, hev, i, e, he, rfl⟩
  · exact Or.inl kept
  · have gain := EventRule.mayGain_of_mem_attached hev he
    refine Or.inr ⟨x.extend rule.additions, extend_mem_survey _ x hx, ?_, ?_, i, e, gain.event, rfl⟩
    · rw [Located.label_extend]
      exact gain.owner
    · rw [Located.isGenerated, Located.label_extend]
      exact gain.generated

/-- What is finished after its comment was changed is finished. -/
theorem isFinishedAs_of_commented {f : Site → Label → Label}
    (hf : ∀ x ∈ t.survey, x.MayRead (f x.site x.label)) (hx : x ∈ t.survey)
    (comment : f x.site x.label = { x.label with comment := (f x.site x.label).comment })
    (h : (x.relabel f).IsFinishedAs settings y) : x.IsFinishedAs settings y where
  address := h.address
  generated := h.generated.trans
    (isGenerated_relabel_of_hasTags (fun z hz => (hf z hz).hasTags) hx)
  label := by
    have hl := h.label
    rwa [Located.label_relabel, comment] at hl
  recased hr := by
    rw [← isRenameable_relabel hf hx] at hr
    have hn := h.recased hr
    rwa [Located.label_relabel, comment] at hn
  name hr := by
    rw [← isRenameable_relabel hf hx] at hr
    rw [h.name hr, Located.label_relabel, comment]

/-- Renaming finishes a declaration whose name can be recased if it is to be. -/
theorem isFinishedAs_renamed (h : t.IsRecasable settings.targets settings.pattern)
    (hx : x ∈ t.survey) :
    x.IsFinishedAs settings (x.relabel (renamedLabel settings.targets settings.pattern)) := by
  have generated := isGenerated_relabel_of_hasTags
    (fun z _ => (mayRead_renamedLabel settings.targets settings.pattern z).hasTags) hx
  cases hr : isRenameable settings.targets x.site x.label with
  | true =>
    obtain ⟨name, hn⟩ := h x hx hr
    have hl := renamedLabel_eq hr hn
    refine ⟨rfl, generated, ?_, fun _ => ?_, fun hf => ?_⟩
    · rw [Located.label_relabel, hl]
    · rw [Located.label_relabel, hl, hn]
    · rw [hf] at hr
      cases hr
  | false =>
    have hl : renamedLabel settings.targets settings.pattern x.site x.label = x.label := by
      rw [renamedLabel, hr]
      rfl
    refine ⟨rfl, generated, ?_, fun ht => ?_, fun _ => ?_⟩
    · rw [Located.label_relabel, hl]
    · rw [ht] at hr
      cases hr
    · rw [Located.label_relabel, hl]

/-- Attaching documentation sets comments and nothing else. -/
theorem documentedLabel_comment (corpus : Corpus) (s : Site) (l : Label) :
    documentedLabel corpus s l = { l with comment := (documentedLabel corpus s l).comment } := by
  rw [documentedLabel]
  split
  · split <;> rfl
  · rfl

/-- What comes of a declaration when its tree is documented and renamed. -/
def retold (settings : RunSettings) (corpus : Corpus) (x : Located) : Located :=
  ((x.relabel fun _ l => { l with comment := .null }).relabel (documentedLabel corpus)).relabel
    (renamedLabel settings.targets settings.pattern)

/-- The declarations of a tree that is documented and renamed. -/
theorem mem_survey_renamed :
    y ∈ (settings.renamed corpus t).survey ↔ ∃ x ∈ t.survey, retold settings corpus x = y := by
  simp [RunSettings.renamed, Tree.renamed, documented, cleared, survey_relabel, retold]

/-- Documenting and renaming finish every declaration. -/
theorem isFinishedAs_retold (h : settings.IsFinishable corpus t) (hx : x ∈ t.survey) :
    x.IsFinishedAs settings (retold settings corpus x) := by
  have cleared : x.relabel (fun _ l => { l with comment := .null }) ∈ t.cleared.survey :=
    mem_survey_relabel.2 ⟨x, hx, rfl⟩
  have documented := mem_survey_relabel (f := documentedLabel corpus).2 ⟨_, cleared, rfl⟩
  refine isFinishedAs_of_commented (f := fun _ l => { l with comment := .null })
    (fun z _ => z.mayRead_comment .null) hx rfl ?_
  refine isFinishedAs_of_commented (fun z _ => mayRead_documentedLabel corpus z) cleared
    (documentedLabel_comment corpus _ _) ?_
  exact isFinishedAs_renamed h.recasable documented

/-- A tree that can be finished has, once finished, every declaration, and besides these only events
of generated classes. -/
theorem isFinishedAs_finish (h : settings.IsFinishable corpus t) :
    (∀ x ∈ t.survey, ∃ y ∈ (settings.finish corpus t).survey, x.IsFinishedAs settings y) ∧
      ∀ y ∈ (settings.finish corpus t).survey, (∃ x ∈ t.survey, x.IsFinishedAs settings y) ∨
        (settings.finish corpus t).IsEventOfGenerated y := by
  constructor
  · intro x hx
    have renamed : retold settings corpus x ∈ (settings.renamed corpus t).survey :=
      mem_survey_renamed.2 ⟨x, hx, rfl⟩
    have finished := extend_mem_survey (settings.hookRule (settings.signalled corpus t)).additions _
      (extend_mem_survey settings.signals.rule.additions _ renamed)
    exact ⟨_, finished, ((isFinishedAs_retold h hx).extend _).extend _⟩
  · intro y hy
    rcases isEventOfGenerated_of_withEvents _ hy with ⟨signalled, hs, rfl⟩ | event
    · rcases isEventOfGenerated_of_withEvents _ hs with ⟨z, hz, rfl⟩ | event
      · obtain ⟨x, hx, rfl⟩ := mem_survey_renamed.1 hz
        exact Or.inl ⟨x, hx, ((isFinishedAs_retold h hx).extend _).extend _⟩
      · exact Or.inr (event.extend _)
    · exact Or.inr event

end Tree

/-! ## Runs -/

/-- What a run makes of a declaration `x` of a loaded tree: a declaration `y` at the same place that
differs in nothing but what is said here. -/
structure Located.IsKeptAs (settings : RunSettings) (policy : Policy) (t : Tree) (x y : Located) :
    Prop where
  /-- It stands where it stood. -/
  address : y.site.address = x.site.address
  /-- Its role is the same. -/
  role : y.label.role = x.label.role
  /-- Its name in the header is the same. -/
  headerName : y.label.headerName = x.label.headerName
  /-- Its form is the same but for the mark of value types. -/
  form : y.label.form.unmarked = x.label.form
  /-- A class is marked as a value type just if the policy makes its full name one. -/
  value : ∀ traits, y.label.form = .classType traits →
    traits.isValue = policy.isValueType x.qualifiedName
  /-- What is generated in the end and of a kind to be renamed has its name in the case of names. -/
  recased : isRenameable settings.targets y.site y.label = true →
    settings.pattern.convert x.label.name = .ok y.label.name
  /-- An anonymous enumeration of a class of which the policy names them has that name. -/
  named : policy.namesEnum t x.site x.label = true → y.label.name = policy.typedEnumName
  /-- Any other name is the same. -/
  name : isRenameable settings.targets y.site y.label = false →
    policy.namesEnum t x.site x.label = false → y.label.name = x.label.name
  /-- What the policy makes accessible is. -/
  published : policy.publishes t x.site = true → y.label.access = .publicAccess
  /-- Any other access is the same. -/
  access : policy.publishes t x.site = false → y.label.access = x.label.access
  /-- Unless it is generated in the end, it has no comment. -/
  comment : y.isGenerated = false → y.label.comment = .null

/-- What a run makes of a loaded tree but for treatments: every declaration is still there, and
besides these there are only events of generated classes. -/
structure Tree.IsKeptIn (settings : RunSettings) (policy : Policy) (t done : Tree) : Prop where
  /-- Every declaration of the loaded tree is there. -/
  kept : ∀ x ∈ t.survey, ∃ y ∈ done.survey, x.IsKeptAs settings policy t y
  /-- Whatever else is there is an event of a generated class. -/
  added : ∀ y ∈ done.survey, (∃ x ∈ t.survey, x.IsKeptAs settings policy t y) ∨
    done.IsEventOfGenerated y

namespace Tree

variable {root : WrittenPath} {marks : PrivateMarks} {p : Policy} {t : Tree} {x y : Located}
  {settings : RunSettings} {corpus : Corpus}

/-- Enumerations are not renamed. -/
theorem isEnumeration_of_isRenameable {targets : List RenameTarget} {s : Site} {l : Label}
    (h : isRenameable targets s l = true) : l.form.isEnumeration = false := by
  rw [isRenameable, Bool.and_eq_true, Bool.and_eq_true] at h
  by_contra he
  rw [Bool.not_eq_false] at he
  simp [RenameTarget.ofForm?_of_isScope (Form.isScope_of_isEnumeration he)] at h

/-- Only enumerations are named by a policy. -/
theorem isEnumeration_of_namesEnum (h : p.namesEnum t x.site x.label = true) :
    x.label.form.isEnumeration = true := by
  rw [Policy.namesEnum, Bool.and_eq_true, Policy.isAnonymousEnum, Bool.and_eq_true,
    Bool.and_eq_true] at h
  exact h.1.1.2

/-- What can be renamed is of no form that a policy names. -/
theorem namesEnum_eq_false_of_isRenameable {targets : List RenameTarget}
    (form : y.label.form.unmarked = x.label.form.unmarked)
    (h : isRenameable targets y.site y.label = true) : p.namesEnum t x.site x.label = false := by
  by_contra named
  have enumeration := isEnumeration_of_namesEnum (Bool.not_eq_false _ ▸ named)
  rw [← Form.isEnumeration_unmarked, ← form, Form.isEnumeration_unmarked,
    isEnumeration_of_isRenameable h] at enumeration
  cases enumeration

/-- A class of a loaded tree is a value type after settling just if the policy makes it one. -/
theorem IsLoaded.isValue_settle (hl : t.IsLoaded) (hx : x ∈ t.survey) {traits : ClassTraits}
    (h : (x.settle root marks p t).label.form = .classType traits) :
    traits.isValue = p.isValueType x.qualifiedName := by
  have unmarked := (hl.label x hx).unmarked
  have agrees : (x.settle root marks p t).label.form.unmarked = x.label.form.unmarked :=
    (agrees_settle hx).form
  rw [unmarked, h] at agrees
  have hf : x.label.form = .classType { traits with isValue := false } := agrees.symm
  have makes : p.makesValue x.site x.label = p.isValueType x.qualifiedName := by
    rw [Policy.makesValue, hf]
    rfl
  rw [form_settle hl.isShaped hx, makes, Policy.markValue, hf] at h
  split at h
  · next hv =>
    rw [hv, ← Form.classType.inj h]
  · next hv =>
    rw [Bool.not_eq_true] at hv
    rw [hv, ← Form.classType.inj h]

/-- A declaration of a loaded tree that is settled and finished is kept. -/
theorem IsLoaded.isKeptAs (hl : t.IsLoaded) (hx : x ∈ t.survey)
    (h : (x.settle root settings.marks p t).IsFinishedAs settings y)
    (comment : y.isGenerated = false → y.label.comment = .null) : x.IsKeptAs settings p t y := by
  have agrees : x.label.Agrees (x.settle root settings.marks p t).label := agrees_settle hx
  have form : y.label.form.unmarked = x.label.form.unmarked := by rw [h.label]; exact agrees.form
  have settledName := Tree.name_settle root settings.marks p t x
  rw [namesAfter_eq hl.isShaped hx] at settledName
  have settledAccess : (x.settle root settings.marks p t).label.access =
      if p.publishes t x.site then .publicAccess else x.label.access :=
    access_settle hl.isShaped x
  have apart : isRenameable settings.targets y.site y.label = true →
      p.namesEnum t x.site x.label = false := namesEnum_eq_false_of_isRenameable form
  refine
    { address := h.address
      role := by rw [h.label]; exact agrees.role
      headerName := by rw [h.label]; exact agrees.headerName
      form := form.trans (hl.label x hx).unmarked
      value := fun traits ht => by
        rw [h.label] at ht
        exact hl.isValue_settle hx ht
      recased := fun hr => ?_
      named := fun hn => ?_
      name := fun hr hn => ?_
      published := fun hp => ?_
      access := fun hp => ?_
      comment }
  · rw [if_neg (by simp [apart hr])] at settledName
    rw [← settledName]
    exact h.recased (h.isRenameable_eq ▸ hr)
  · have hr : isRenameable settings.targets y.site y.label = false := by
      by_contra hr
      rw [apart (by simpa using hr)] at hn
      cases hn
    rw [h.name (h.isRenameable_eq ▸ hr), settledName, if_pos hn]
  · rw [h.name (h.isRenameable_eq ▸ hr), settledName, if_neg (by simp [hn])]
  · rw [h.label, settledAccess, if_pos hp]
  · rw [h.label, settledAccess, if_neg (by simp [hp])]

end Tree

/-- A run on a loaded tree that comes to an end leaves every declaration alone but for its treatment
and what it says of names, access, value types and comments, and adds only events of generated
classes. -/
theorem runModule_frame {source : String} {document : Value} {t : Tree}
    (loaded : Tree.ofDocument source document = .ok t) {info : ModuleInfo} {config : Value}
    {corpus : Corpus} {request : Option InlinesRequest} {hasBuilder : Bool} {w : Work}
    (tree : w.tree = t)
    (completes : (runModule info config corpus request hasBuilder w).2.fault = none) :
    ∃ policy settings, runPolicy info config = .ok policy ∧
      RunSettings.ofConfig config = .ok settings ∧
      t.IsKeptIn settings policy (runModule info config corpus request hasBuilder w).2.tree := by
  subst tree
  have hl := Tree.isLoaded_ofDocument loaded
  obtain ⟨policy, settings, hp, hset, finishes⟩ := exists_finish hl.isShaped completes
  refine ⟨policy, settings, hp, hset, ?_⟩
  have finishable := finishes.allows.finishable
  have shaped := hl.isShaped.settle info.root settings.marks policy
  have documented := Tree.isDocumented_finish finishable
  obtain ⟨finished, added⟩ := Tree.isFinishedAs_finish finishable
  rw [finishes.tree]
  constructor
  · intro x hx
    obtain ⟨y, hy, h⟩ := finished _ (Tree.mem_survey_settle.2 ⟨x, hx, rfl⟩)
    exact ⟨y, hy, hl.isKeptAs hx h (documented.comment_eq_null hy)⟩
  · intro y hy
    rcases added y hy with ⟨z, hz, h⟩ | event
    · obtain ⟨x, hx, rfl⟩ := Tree.mem_survey_settle.1 hz
      exact Or.inl ⟨x, hx, hl.isKeptAs hx h (documented.comment_eq_null hy)⟩
    · exact Or.inr event

/-- With the default configuration, the sample is kept. -/
theorem runModule_frame_sample :
    let done := (runModule .sample (.mapping Config.defaults) {} none false
      { tree := Tree.sampleTree }).2
    done.fault = none ∧ ∃ settings, RunSettings.ofConfig (.mapping Config.defaults) = .ok settings ∧
      Tree.sampleTree.IsKeptIn settings (Policy.base (.text "Gui")) done.tree := by
  have completes : (runModule .sample (.mapping Config.defaults) {} none false
      { tree := Tree.sampleTree }).2.fault = none :=
    Option.isNone_iff_eq_none.1 (by decide +kernel)
  obtain ⟨policy, settings, hp, hs, kept⟩ :=
    runModule_frame Tree.ofDocument_sampleDump rfl completes
  obtain rfl : Policy.base (.text "Gui") = policy := Except.ok.inj hp
  exact ⟨completes, settings, hs, kept⟩

end Bindery
