import Bindery.Proofs.Attachment
import Bindery.Proofs.Relabelling

/-!
# Changes of a tree

Whatever a pass does to a tree is a row of small changes: a relabelling that turns every label into
one that is allowed for it, or events for classes that are generated. Most passes leave all
treatments and suppressions alone; classification, policies and resolution never take a suppression
back and never make anything generated again.
-/

namespace Bindery

namespace Located

/-- A later label of a declaration that only reads differently: it may have another comment and, if
it is generated and of a kind that is renamed, another name. -/
structure MayRead (x : Located) (l : Label) : Prop where
  /-- The role is the same. -/
  role : l.role = x.label.role
  /-- The name in the header is the same. -/
  headerName : l.headerName = x.label.headerName
  /-- The form is the same. -/
  form : l.form = x.label.form
  /-- The access is the same. -/
  access : l.access = x.label.access
  /-- The treatment is the same. -/
  treatment : l.treatment = x.label.treatment
  /-- The suppression is the same. -/
  suppression : l.suppression = x.label.suppression
  /-- The name is the same unless it can be renamed. -/
  name : l.name = x.label.name ∨
    x.isGenerated = true ∧ (RenameTarget.ofForm? x.label.form).isSome = true

/-- A later label of a declaration with the same treatment and suppression. -/
structure HasTags (x : Located) (l : Label) : Prop where
  /-- It is the same declaration. -/
  agrees : x.label.Agrees l
  /-- The treatment is the same. -/
  treatment : l.treatment = x.label.treatment
  /-- The suppression is the same. -/
  suppression : l.suppression = x.label.suppression

/-- A label that a declaration may come to have: what is suppressed stays so, nothing becomes
generated again, and whatever is ignored was ignored before or is suppressed on purpose. -/
structure MayTurn (x : Located) (l : Label) : Prop where
  /-- It is the same declaration. -/
  agrees : x.label.Agrees l
  /-- A suppression is not taken back. -/
  suppressed : x.label.isSuppressed = true → l.isSuppressed = true
  /-- Nothing becomes generated again. -/
  generated : l.treatment = .generate → x.label.treatment = .generate
  /-- What is ignored was ignored or is suppressed on purpose. -/
  ignored : l.treatment = .ignore → x.isIgnored = true ∨ l.isSuppressed = true

/-- A declaration that may be appended to another: an event, which is generated as its class is. -/
structure MayGain (x : Located) (e : Decl) : Prop where
  /-- The owner is a class. -/
  owner : x.label.form.isClass = true
  /-- The owner is generated. -/
  generated : x.isGenerated = true
  /-- Events have no members. -/
  leaf : e.members = []
  /-- It is an event. -/
  event : e.label.form.isEvent = true
  /-- It stands among the events. -/
  role : e.label.role = .event
  /-- It is generated. -/
  treatment : e.label.treatment = .generate
  /-- It is not suppressed. -/
  suppression : e.label.suppression = .bool false

/-- A declaration is ignored just if something along its chain is out. -/
theorem isIgnored_eq (x : Located) : x.isIgnored = x.chain.any Label.isOut := rfl

/-- What is generated is not ignored. -/
theorem not_isIgnored_of_isGenerated {x : Located} (h : x.isGenerated = true) :
    x.isIgnored = false := by
  rw [isGenerated, Site.isGenerated, Bool.and_eq_true, Bool.not_eq_true'] at h
  exact h.2

/-- Events are no classes. -/
theorem MayGain.isClass {x : Located} {e : Decl} (h : x.MayGain e) :
    e.label.form.isClass = false := by
  have he := h.event
  cases hf : e.label.form <;> first | rfl | simp [hf, Form.isEvent, Form.adapter?] at he

/-- Events are no units. -/
theorem MayGain.isUnit {x : Located} {e : Decl} (h : x.MayGain e) :
    e.label.form.isUnit = false := by
  have he := h.event
  cases hf : e.label.form <;> first | rfl | simp [hf, Form.isEvent, Form.adapter?] at he

/-- What is appended to a declaration is not ignored, as the declaration is not. -/
theorem MayGain.isIgnored_appended {x : Located} {e : Decl} (h : x.MayGain e)
    (f : Site → Decl → List Decl) (i : Nat) : ((x.extend f).member i e).isIgnored = false := by
  have he : e.label.isOut = false := by
    simp [Label.isOut, Label.isSuppressed, h.treatment, h.suppression, Value.isGiven]
  rw [isIgnored_eq, chain_member, List.any_cons, he, Bool.false_or, chain_extend, ← isIgnored_eq]
  exact not_isIgnored_of_isGenerated h.generated

/-- What is appended to a declaration is generated. -/
theorem MayGain.isGenerated_appended {x : Located} {e : Decl} (h : x.MayGain e)
    (f : Site → Decl → List Decl) (i : Nat) : ((x.extend f).member i e).isGenerated = true := by
  change (e.label.treatment == .generate && !((x.extend f).member i e).isIgnored) = true
  rw [h.isIgnored_appended, h.treatment]
  rfl

/-- A label that is out makes its declaration ignored. -/
theorem isIgnored_of_isOut {x : Located} (h : x.label.isOut = true) : x.isIgnored = true := by
  simp [isIgnored, Site.isIgnored, Chain.isIgnored, Site.chain, h]

/-- What has the treatment of ignored declarations is ignored. -/
theorem isIgnored_of_treatment {x : Located} (h : x.label.treatment = .ignore) :
    x.isIgnored = true := isIgnored_of_isOut (by simp [Label.isOut, h])

/-- Scopes keep their names. -/
theorem MayRead.name_of_isScope {x : Located} {l : Label} (h : x.MayRead l)
    (hs : x.label.form.isScope = true) : l.name = x.label.name := by
  refine h.name.resolve_right fun hr => ?_
  rw [RenameTarget.ofForm?_of_isScope hs] at hr
  exact absurd hr.2 (by simp)

/-- What only reads differently has the same tags. -/
theorem MayRead.hasTags {x : Located} {l : Label} (h : x.MayRead l) : x.HasTags l where
  agrees := ⟨h.role, h.headerName, congrArg Form.unmarked h.form,
    fun ho => h.name_of_isScope (Form.isScope_of_isOpen ho)⟩
  treatment := h.treatment
  suppression := h.suppression

/-- A label may have another comment. -/
theorem mayRead_comment (x : Located) (comment : Value) : x.MayRead { x.label with comment } :=
  ⟨rfl, rfl, rfl, rfl, rfl, rfl, Or.inl rfl⟩

/-- A label may stay as it is. -/
theorem mayRead_self (x : Located) : x.MayRead x.label :=
  ⟨rfl, rfl, rfl, rfl, rfl, rfl, Or.inl rfl⟩

/-- The tags a declaration has may stay. -/
theorem HasTags.mayTurn {x : Located} {l : Label} (h : x.HasTags l) : x.MayTurn l where
  agrees := h.agrees
  suppressed := by simp [Label.isSuppressed, h.suppression]
  generated := by simp [h.treatment]
  ignored hi := Or.inl (isIgnored_of_treatment (h.treatment ▸ hi))

/-- What a pass that adds nothing may make of a label is allowed. -/
theorem MayEdit.mayTurn {x : Located} {l : Label} (h : x.MayEdit l) : x.MayTurn l := by
  have agrees := h.agrees
  have same {l' : Label} (ha : x.label.Agrees l') (ht : l'.treatment = x.label.treatment)
      (hs : l'.suppression = x.label.suppression) : x.MayTurn l' :=
    HasTags.mayTurn ⟨ha, ht, hs⟩
  cases h with
  | suppress => exact ⟨agrees, fun _ => rfl, nofun, fun _ => Or.inr rfl⟩
  | link => exact ⟨agrees, id, nofun, nofun⟩
  | ignore ignored => exact ⟨agrees, id, nofun, fun _ => Or.inl ignored⟩
  | markValue =>
    obtain ⟨hs, ht⟩ := Policy.tags_markValue x.label
    exact same agrees ht hs
  | _ => exact same agrees rfl rfl

end Located

namespace Tree

/-- A small change of a tree, where every label turns into one that is allowed for it. -/
inductive Change (allowed : Located → Label → Prop) (t : Tree) : Tree → Prop
  /-- Labels are mapped. -/
  | relabel (f : Site → Label → Label) (h : ∀ x ∈ t.survey, allowed x (f x.site x.label)) :
    Change allowed t (t.relabel f)
  /-- Events are appended. -/
  | extend (f : Site → Decl → List Decl)
    (h : ∀ x ∈ t.survey, ∀ e ∈ f x.site x.decl, x.MayGain e) : Change allowed t (t.extend f)

/-- Any number of small changes. -/
abbrev Changes (allowed : Located → Label → Prop) : Tree → Tree → Prop :=
  Relation.ReflTransGen (Change allowed)

/-- Allowing more labels allows more changes. -/
theorem Changes.mono {allowed allowed' : Located → Label → Prop}
    (h : ∀ x l, allowed x l → allowed' x l) {t t' : Tree} (hc : Changes allowed t t') :
    Changes allowed' t t' := by
  refine Relation.ReflTransGen.mono (p := Change allowed') ?_ t t' hc
  rintro a b (⟨f, hf⟩ | ⟨f, hf⟩)
  · exact .relabel f fun x hx => h x _ (hf x hx)
  · exact .extend f hf

/-- Changes leave the stage alone. -/
theorem Changes.stage {allowed : Located → Label → Prop} {t t' : Tree}
    (h : t.Changes allowed t') : t'.stage = t.stage := by
  induction h with
  | refl => rfl
  | tail _ hstep ih => cases hstep <;> exact ih

/-- One relabelling is a row of changes. -/
theorem Changes.relabel {allowed : Located → Label → Prop} {t : Tree} (f : Site → Label → Label)
    (h : ∀ x, allowed x (f x.site x.label)) : Changes allowed t (t.relabel f) :=
  .single (.relabel f fun x _ => h x)

end Tree

/-- Relabelling a tree changes it in allowed ways. -/
theorem Tree.Relabels.changes {t t' : Tree} (h : t.Relabels t') : t.Changes Located.MayTurn t' := by
  refine Relation.ReflTransGen.mono (p := Change Located.MayTurn) ?_ t t' h
  rintro a b ⟨f, hf⟩
  exact .relabel f fun x hx => (hf x hx).mayTurn

/-! ## Passes that leave tags alone -/

/-- Clearing comments changes comments alone. -/
theorem clearComments_changes (w : Work) :
    w.tree.Changes Located.MayRead (clearComments w).tree :=
  .relabel _ fun x => x.mayRead_comment .null

/-- Attaching documentation changes comments alone. -/
theorem mayRead_documentedLabel (corpus : Corpus) (x : Located) :
    x.MayRead (documentedLabel corpus x.site x.label) := by
  rw [documentedLabel]
  split
  · split
    · exact x.mayRead_comment _
    · exact x.mayRead_self
  · exact x.mayRead_self

/-- Attaching documentation changes comments alone, however far it gets. -/
theorem backfillComments_changes (corpus : Corpus) (w : Work) :
    w.tree.Changes Located.MayRead (backfillComments corpus w).tree := by
  rw [backfillComments, Work.tree_stopAt]
  refine .relabel _ fun x => ?_
  split
  · exact mayRead_documentedLabel corpus x
  · exact x.mayRead_self

/-- Recasing changes the names of what is generated and of a kind that is renamed. -/
theorem mayRead_renamedLabel (targets : List RenameTarget) (pattern : CasePattern)
    (x : Located) : x.MayRead (renamedLabel targets pattern x.site x.label) := by
  rw [renamedLabel]
  split
  · next h =>
    rw [isRenameable, Bool.and_eq_true, Bool.and_eq_true] at h
    have hk : (RenameTarget.ofForm? x.label.form).isSome = true :=
      Option.isSome_of_any h.1.1
    split
    · exact ⟨rfl, rfl, rfl, rfl, rfl, rfl, Or.inr ⟨h.2, hk⟩⟩
    · exact x.mayRead_self
  · exact x.mayRead_self

/-- Renaming changes names, however far it gets. -/
theorem rename_changes (targets : List RenameTarget) (pattern : CasePattern) (w : Work) :
    w.tree.Changes Located.MayRead (rename targets pattern w).tree := by
  rw [rename, Work.tree_stopAt]
  refine .relabel _ fun x => ?_
  split
  · exact mayRead_renamedLabel targets pattern x
  · exact x.mayRead_self

/-- What a class that is generated gets may be appended to it. -/
theorem EventRule.mayGain_of_mem_attached {rule : EventRule} {x : Located}
    (h : isEventful x.site x.label = true) {e : Decl}
    (he : e ∈ (rule.roster x.site x.decl).attached) : x.MayGain e := by
  obtain ⟨k, m, name, -, -, rfl⟩ := mayAttach_of_mem_attached he
  rw [isEventful, Bool.and_eq_true] at h
  exact ⟨h.1, h.2, rfl, rfl, rfl, rfl, rfl⟩

/-- Attaching events appends events to classes that are generated, and changes no label. -/
theorem attachEvents_changes {allowed : Located → Label → Prop} (rule : EventRule) (w : Work) :
    w.tree.Changes allowed (attachEvents rule w).tree := by
  rw [attachEvents, Work.tree_stopAt]
  refine .single (.extend _ fun x _ e he => ?_)
  split at he
  · next h =>
    rw [Bool.and_eq_true] at h
    exact EventRule.mayGain_of_mem_attached h.1 he
  · simp at he

namespace Pass

/-- Whether a pass gives declarations other treatments, short of settling them. -/
def isTagging : Pass → Bool
  | origin _ _ | normalize _ => true
  | _ => false

/-- Whether a pass settles treatments. -/
def isSettling : Pass → Bool
  | resolve => true
  | _ => false

/-- After a pass that neither tags nor settles, the tree only reads differently. -/
theorem work_changes_mayRead {pass : Pass} (ht : pass.isTagging = false)
    (hs : pass.isSettling = false) (w : Work) :
    w.tree.Changes Located.MayRead (pass.work w).tree := by
  cases pass with
  | origin root marks => simp [isTagging] at ht
  | normalize policy => simp [isTagging] at ht
  | resolve => simp [isSettling] at hs
  | clearComments => exact clearComments_changes w
  | backfillComments corpus => exact backfillComments_changes corpus w
  | rename targets pattern => exact rename_changes targets pattern w
  | signalEvents options => exact attachEvents_changes options.rule w
  | hookEvents options =>
    exact w.steps_require _ fun index => attachEvents_changes (options.rule index) w
  | requestInlines request hasBuilder =>
    rw [work, tree_requestInlines]
  | undefined => exact .refl
  | undefinedEvents => exact attachEvents_changes undefinedRule w

/-- A pass that neither tags nor settles sets no tags. -/
theorem work_changes_hasTags {pass : Pass} (ht : pass.isTagging = false)
    (hs : pass.isSettling = false) (w : Work) :
    w.tree.Changes Located.HasTags (pass.work w).tree :=
  (work_changes_mayRead ht hs w).mono fun _ _ => Located.MayRead.hasTags

/-- Every pass changes the tree in allowed ways. -/
theorem work_changes (pass : Pass) (w : Work) :
    w.tree.Changes Located.MayTurn (pass.work w).tree := by
  cases pass with
  | origin root marks => exact (classify_relabels root marks w).changes
  | normalize policy => exact (policy.apply_relabels w).changes
  | resolve => exact (resolve_relabels w).changes
  | _ => exact (work_changes_hasTags rfl rfl w).mono fun _ _ => Located.HasTags.mayTurn

end Pass

end Bindery
