import Bindery.Proofs.Casing
import Bindery.Proofs.Finish
import Bindery.Proofs.Preparation

/-!
# Trees that read as they should

A tree is documented if every comment is the one that the corpus tells, and recased if every name of
a chosen kind, but for those of events, is in its final case. Documentation and renaming lead to such
trees, and attaching events keeps them so: an event is documented as its method is. On a documented
tree documentation changes nothing, and renaming changes nothing on a recased one if the names of
events are in their final case, too. Main statements: `IsDocumented.documented_eq_self`,
`IsRecased.renamed_eq_self_iff`.
-/

namespace Bindery

/-! ## What a corpus tells -/

/-- The signature under which a declaration is documented is a matter of its form and its name in
the header. -/
theorem Label.signature_congr {l l' : Label} (headerName : l'.headerName = l.headerName)
    (form : l'.form = l.form) : l'.signature = l.signature := by
  simp only [signature, headerName, form]

namespace Corpus

variable {corpus : Corpus}

/-- The comment of a declaration that has none but from the corpus. -/
def commentAt (corpus : Corpus) (s : Site) (l : Label) : Value :=
  if isDocumentable s l then
    match corpus.lookupAt s l with
    | .ok (some text) => .text text
    | _ => .null
  else .null

/-- What a corpus tells of a declaration is a matter of names in the header and forms. -/
theorem lookupAt_congr {s s' : Site} {l l' : Label} (scope : s.scope.Agree s'.scope)
    (agrees : l.Agrees l') (form : l'.form = l.form) :
    corpus.lookupAt s' l' = corpus.lookupAt s l := by
  have chain : (s.chain l).Agree (s'.chain l') := .cons agrees scope
  rw [lookupAt, lookupAt, scope.isHeaderNamed, Site.owner, Site.owner, scope.qualifiedHeaderName,
    Label.signature_congr agrees.headerName form, chain.qualifiedHeaderName, form]

/-- What a corpus tells of a member is a matter of its scope and its signature. -/
theorem lookupAt_of_isMemberOnly {s : Site} {l : Label} (h : isMemberOnly l.form = true) :
    corpus.lookupAt s l =
      if Chain.isHeaderNamed s.scope then corpus.find (.text s.owner) l.signature
      else .error .wrongKind := by
  rw [lookupAt, h]
  split
  · rcases corpus.find (.text s.owner) l.signature with fault | _ | text <;> rfl
  · rfl

/-- Documenting a declaration without a comment gives it the comment that the corpus tells. -/
theorem documentedLabel_eq {s : Site} {l : Label} (h : l.comment = .null) :
    documentedLabel corpus s l = { l with comment := corpus.commentAt s l } := by
  rw [documentedLabel, commentAt]
  split
  · rcases corpus.lookupAt s l with fault | _ | text
    · rw [← h]
    · rw [← h]
    · rfl
  · rw [← h]

end Corpus

/-! ## What events are documented as -/

/-- The corpus tells of an event what it tells of the method that it is made for. -/
theorem EventRule.IsFor.lookupAt {rule : EventRule} {i : Nat} {method : Label} {e : Decl}
    (h : rule.IsFor i method e) (hm : method.form.isMethod = true) (corpus : Corpus) {s s' : Site}
    (scope : s'.scope = s.scope) : corpus.lookupAt s' e.label = corpus.lookupAt s method := by
  obtain ⟨parameters, hf, -⟩ := h.adapter
  have hf : e.label.form = .event ⟨.text rule.origin, some ⟨.sibling i, method.signature⟩,
    parameters⟩ := hf
  have event : Corpus.isMemberOnly e.label.form = true := by rw [hf]; rfl
  have member : Corpus.isMemberOnly method.form = true := by
    cases hf : method.form <;>
      first | rfl | simp [hf, Form.isMethod, Form.methodTraits?] at hm
  have signature : e.label.signature = method.signature := by rw [Label.signature, hf]; rfl
  rw [Corpus.lookupAt_of_isMemberOnly event, Corpus.lookupAt_of_isMemberOnly member, Site.owner,
    Site.owner, scope, signature]

/-- A rule that accepts only methods. -/
def EventRule.AcceptsMethods (rule : EventRule) : Prop :=
  ∀ l : Label, rule.accepts l = true → l.form.isMethod = true

/-- Signals are methods. -/
theorem SignalOptions.acceptsMethods_rule (options : SignalOptions) :
    options.rule.AcceptsMethods := by
  intro l h
  have h : options.qualifies l = .ok true := EventRule.accepts_iff.1 h
  rw [SignalOptions.qualifies] at h
  cases ht : l.form.methodTraits? with
  | some traits => rw [Form.isMethod, ht]; rfl
  | none =>
    rw [ht] at h
    cases h

/-- Hooks are methods. -/
theorem HookOptions.acceptsMethods_rule (options : HookOptions) (index : BaseIndex) :
    (options.rule index).AcceptsMethods := by
  intro l h
  have h : options.qualifies index l = .ok true := EventRule.accepts_iff.1 h
  rw [HookOptions.qualifies] at h
  cases hf : l.form with
  | method signature traits => rfl
  | _ =>
    rw [hf] at h
    cases h

namespace Tree

variable {root : WrittenPath} {marks : PrivateMarks} {p : Policy} {t : Tree} {x : Located}
  {corpus : Corpus} {f : Site → Label → Label}

/-- What a corpus tells of a declaration that only reads differently. -/
theorem lookupAt_relabel (corpus : Corpus) (hf : ∀ x ∈ t.survey, x.MayRead (f x.site x.label))
    (hx : x ∈ t.survey) :
    corpus.lookupAt (x.relabel f).site (x.relabel f).label = corpus.lookupAt x.site x.label := by
  have agrees : t.AgreesUnder f := fun x hx => (hf x hx).hasTags.agrees
  refine Corpus.lookupAt_congr (agrees.scope hx) (agrees.label hx) ?_
  rw [Located.label_relabel, (hf x hx).form]

/-- What only reads differently is to be documented if it was. -/
theorem isDocumentable_relabel (hf : ∀ x ∈ t.survey, x.MayRead (f x.site x.label))
    (hx : x ∈ t.survey) :
    isDocumentable (x.relabel f).site (x.relabel f).label = isDocumentable x.site x.label := by
  have hg : (x.relabel f).site.isGenerated (x.relabel f).label = x.site.isGenerated x.label :=
    isGenerated_relabel_of_hasTags (fun x hx => (hf x hx).hasTags) hx
  rw [isDocumentable, isDocumentable, hg, Located.label_relabel, (hf x hx).form]

/-- The corpus tells the same of what only reads differently. -/
theorem commentAt_relabel (corpus : Corpus)
    (hf : ∀ x ∈ t.survey, x.MayRead (f x.site x.label)) (hx : x ∈ t.survey) :
    corpus.commentAt (x.relabel f).site (x.relabel f).label = corpus.commentAt x.site x.label := by
  rw [Corpus.commentAt, Corpus.commentAt, isDocumentable_relabel hf hx, lookupAt_relabel corpus hf hx]

/-- Everything can be looked up in a tree that only reads differently if it could. -/
theorem isDocumentable_relabel_iff (hf : ∀ x ∈ t.survey, x.MayRead (f x.site x.label)) :
    (t.relabel f).IsDocumentable corpus ↔ t.IsDocumentable corpus := by
  rw [IsDocumentable, IsDocumentable, survey_relabel, List.forall_mem_map]
  refine forall₂_congr fun x hx => ?_
  rw [isDocumentable_relabel hf hx, lookupAt_relabel corpus hf hx]

/-- Every comment is the one that the corpus tells. -/
structure IsDocumented (corpus : Corpus) (t : Tree) : Prop where
  /-- Everything that wants documentation can be looked up. -/
  documentable : t.IsDocumentable corpus
  /-- The comments are those of the corpus. -/
  comments : ∀ x ∈ t.survey, x.label.comment = corpus.commentAt x.site x.label

/-- A tree is documented once it can be documented. -/
theorem isDocumented_documented (h : t.cleared.IsDocumentable corpus) :
    (t.documented corpus).IsDocumented corpus where
  documentable := (isDocumentable_relabel_iff fun x _ => mayRead_documentedLabel corpus x).2 h
  comments y hy := by
    obtain ⟨x', hx', rfl⟩ := mem_survey_relabel.1 hy
    rw [commentAt_relabel corpus (fun x _ => mayRead_documentedLabel corpus x) hx', Located.label_relabel]
    obtain ⟨x, hx, rfl⟩ := mem_survey_relabel.1 hx'
    rw [Corpus.documentedLabel_eq]
    rw [Located.label_relabel]

/-- In a documented tree only what is generated has a comment. -/
theorem IsDocumented.comment_eq_null (h : t.IsDocumented corpus) (hx : x ∈ t.survey)
    (hg : x.isGenerated = false) : x.label.comment = .null := by
  have hd : isDocumentable x.site x.label = false := by
    rw [isDocumentable, show x.site.isGenerated x.label = false from hg, Bool.and_false]
  rw [h.comments x hx, Corpus.commentAt, if_neg (by simp [hd])]

/-- A documented tree stays as it is when it is documented. -/
theorem IsDocumented.documented_eq_self (h : t.IsDocumented corpus) : t.documented corpus = t := by
  rw [documented, cleared, relabel_relabel, relabel_eq_self_iff]
  intro x hx
  have hc := commentAt_relabel corpus (f := fun _ l => { l with comment := .null })
    (fun x _ => x.mayRead_comment .null) hx
  rw [Located.label_relabel, Located.site_relabel, ← h.comments x hx] at hc
  rw [Corpus.documentedLabel_eq rfl, hc]

/-- A tree that only reads differently, with the same comments, is documented if it was. -/
theorem IsDocumented.relabel (h : t.IsDocumented corpus)
    (hf : ∀ x ∈ t.survey, x.MayRead (f x.site x.label))
    (comments : ∀ x ∈ t.survey, (f x.site x.label).comment = x.label.comment) :
    (t.relabel f).IsDocumented corpus where
  documentable := (isDocumentable_relabel_iff hf).2 h.documentable
  comments y hy := by
    obtain ⟨x, hx, rfl⟩ := mem_survey_relabel.1 hy
    rw [commentAt_relabel corpus hf hx, Located.label_relabel, comments x hx, h.comments x hx]

/-- A documented tree stays so when it is renamed. -/
theorem IsDocumented.renamed (h : t.IsDocumented corpus) (targets : List RenameTarget)
    (pattern : CasePattern) : (t.renamed targets pattern).IsDocumented corpus := by
  refine h.relabel (fun x _ => mayRead_renamedLabel targets pattern x) fun x _ => ?_
  rw [renamedLabel]
  split
  · split <;> rfl
  · rfl

/-- A declaration of a tree with the events of a rule is one of the tree or the event of a class
there. -/
theorem withEvents_cases (rule : EventRule) {y : Located} (hy : y ∈ (t.withEvents rule).survey) :
    (∃ x ∈ t.survey, x.extend rule.additions = y) ∨
      ∃ x ∈ t.survey, isEventful x.site x.label = true ∧ ∃ (i : Nat) (e : Decl),
        e ∈ (rule.roster x.site x.decl).attached ∧
          (x.extend rule.additions).member i e = y := by
  rcases survey_extend_cases (fun x hx e he => (t.gainsUnder_additions rule x hx e he).leaf) y hy
    with h | ⟨x, hx, j, e, he, hy⟩
  · exact Or.inl h
  · have he := List.mem_of_getElem? he
    rw [EventRule.additions] at he
    split at he
    · next h => exact Or.inr ⟨x, hx, h, _, e, he, hy⟩
    · simp at he

/-- An event has the comment of a method, is to be documented as that is, and the corpus tells the
same of both. -/
theorem exists_source_of_attached (corpus : Corpus) {rule : EventRule}
    (methods : rule.AcceptsMethods) (hx : x ∈ t.survey) (eventful : isEventful x.site x.label = true) {e : Decl}
    (he : e ∈ (rule.roster x.site x.decl).attached) (i : Nat) :
    let y := (x.extend rule.additions).member i e
    ∃ z ∈ t.survey, y.label.comment = z.label.comment ∧
      isDocumentable y.site y.label = isDocumentable z.site z.label ∧
      corpus.lookupAt y.site y.label = corpus.lookupAt z.site z.label := by
  intro y
  obtain ⟨k, j, m, hj, hg, accepted, isFor⟩ :=
    EventRule.exists_isFor_of_mem_attached eventful he
  have method := methods m.label accepted
  have gain := EventRule.mayGain_of_mem_attached eventful he
  have generated : y.site.isGenerated y.label = true := gain.isGenerated_appended _ i
  have scope : y.site.scope = (x.member j m).site.scope := by
    rw [Located.scope_member, Located.chain_extend, Located.scope_member]
  have unit : m.label.form.isUnit = false := by
    cases hf : m.label.form <;>
      first | rfl | simp [hf, Form.isMethod, Form.methodTraits?] at method
  have hg : (x.member j m).site.isGenerated (x.member j m).label = true := hg
  refine ⟨x.member j m, member_mem_survey hx hj, isFor.comment, ?_,
    isFor.lookupAt method corpus scope⟩
  rw [isDocumentable, isDocumentable, generated, hg, Located.label_member, Located.label_member,
    gain.isUnit, unit]

/-- A documented tree stays so when it gets events for methods. -/
theorem IsDocumented.withEvents (h : t.IsDocumented corpus) {rule : EventRule}
    (methods : rule.AcceptsMethods) : (t.withEvents rule).IsDocumented corpus := by
  refine ⟨fun y hy => ?_, fun y hy => ?_⟩ <;>
    rcases withEvents_cases rule hy with ⟨x, hx, rfl⟩ | ⟨x, hx, eventful, i, e, he, rfl⟩
  · rw [Located.label_extend]
    exact h.documentable x hx
  · obtain ⟨z, hz, -, hd, hl⟩ := exists_source_of_attached corpus methods hx eventful he i
    rw [hd, hl]
    exact h.documentable z hz
  · rw [Located.label_extend]
    exact h.comments x hx
  · obtain ⟨z, hz, hc, hd, hl⟩ := exists_source_of_attached corpus methods hx eventful he i
    rw [hc, Corpus.commentAt, hd, hl]
    exact h.comments z hz

/-- A tree that can be finished is documented once it is. -/
theorem isDocumented_finish {settings : RunSettings} (h : settings.IsFinishable corpus t) :
    (settings.finish corpus t).IsDocumented corpus := by
  have renamed := (isDocumented_documented h.documentable).renamed settings.targets settings.pattern
  have signalled := renamed.withEvents settings.signals.acceptsMethods_rule
  exact signalled.withEvents (settings.hooks.acceptsMethods_rule _)

/-! ## Names -/

/-- Every name to be recased is in its final case, but perhaps those of events. -/
def IsRecased (targets : List RenameTarget) (pattern : CasePattern) (t : Tree) : Prop :=
  ∀ x ∈ t.survey, x.label.form.isEvent = false → isRenameable targets x.site x.label = true →
    pattern.convert x.label.name = .ok x.label.name

/-- The names of events are in their final case, if events are renamed at all. -/
def HasRecasedEvents (targets : List RenameTarget) (pattern : CasePattern) (t : Tree) : Prop :=
  RenameTarget.event ∈ targets → ∀ x ∈ t.survey, x.label.form.isEvent = true →
    pattern.convert x.label.name = .ok x.label.name

variable {targets : List RenameTarget} {pattern : CasePattern}

/-- What only reads differently is to be renamed if it was. -/
theorem isRenameable_relabel (hf : ∀ x ∈ t.survey, x.MayRead (f x.site x.label))
    (hx : x ∈ t.survey) :
    isRenameable targets (x.relabel f).site (x.relabel f).label =
      isRenameable targets x.site x.label := by
  have hg : (x.relabel f).site.isGenerated (x.relabel f).label = x.site.isGenerated x.label :=
    isGenerated_relabel_of_hasTags (fun x hx => (hf x hx).hasTags) hx
  rw [isRenameable, isRenameable, hg, Located.label_relabel, (hf x hx).form]

/-- What is renamed gets the name that recasing leads to. -/
theorem renamedLabel_eq {name : Value} (h : isRenameable targets x.site x.label = true)
    (hn : pattern.convert x.label.name = .ok name) :
    renamedLabel targets pattern x.site x.label = { x.label with name } := by
  rw [renamedLabel, if_pos h, hn]

/-- After renaming, every name to be recased is in its final case. -/
theorem convert_renamed (h : t.IsRecasable targets pattern) {y : Located}
    (hy : y ∈ (t.renamed targets pattern).survey)
    (hr : isRenameable targets y.site y.label = true) :
    pattern.convert y.label.name = .ok y.label.name := by
  obtain ⟨x, hx, rfl⟩ := mem_survey_relabel.1 hy
  rw [isRenameable_relabel (fun x _ => mayRead_renamedLabel targets pattern x) hx] at hr
  obtain ⟨name, hn⟩ := h x hx hr
  rw [Located.label_relabel, renamedLabel_eq hr hn]
  exact CasePattern.convert_convert hn

/-- Renaming comes to an end and changes nothing if every name to be recased is in its final case. -/
theorem renamed_eq_self_of_convert
    (final : ∀ x ∈ t.survey, isRenameable targets x.site x.label = true →
      pattern.convert x.label.name = .ok x.label.name) :
    t.IsRecasable targets pattern ∧ t.renamed targets pattern = t := by
  refine ⟨fun x hx hr => ⟨_, final x hx hr⟩, relabel_eq_self_iff.2 fun x hx => ?_⟩
  cases hr : isRenameable targets x.site x.label with
  | false => rw [renamedLabel, hr, if_neg (by simp)]
  | true => rw [renamedLabel_eq hr (final x hx hr)]

/-- Renaming leads to a recased tree if it comes to an end. -/
theorem isRecased_renamed (h : t.IsRecasable targets pattern) :
    (t.renamed targets pattern).IsRecased targets pattern :=
  fun _ hy _ hr => convert_renamed h hy hr

/-- A recased tree stays so when it gets events. -/
theorem IsRecased.withEvents (h : t.IsRecased targets pattern) (rule : EventRule) :
    (t.withEvents rule).IsRecased targets pattern := by
  intro y hy he hr
  rcases withEvents_cases rule hy with ⟨x, hx, rfl⟩ | ⟨x, hx, hev, i, e, hea, rfl⟩
  · rw [Located.label_extend] at he hr ⊢
    exact h x hx he hr
  · rw [Located.label_member, (EventRule.mayGain_of_mem_attached hev hea).event] at he
    cases he

/-- Events that are generated are renamed if events are. -/
theorem isRenameable_of_isEvent (he : x.label.form.isEvent = true) (hg : x.isGenerated = true) :
    isRenameable targets x.site x.label = true ↔ RenameTarget.event ∈ targets := by
  have hg : x.site.isGenerated x.label = true := hg
  rw [isRenameable, hg]
  cases hf : x.label.form <;>
    simp_all [Form.isEvent, Form.adapter?, Form.methodTraits?, RenameTarget.ofForm?]

/-- Renaming comes to an end on a recased tree and changes nothing just if the names of events are
in their final case. -/
theorem IsRecased.renamed_eq_self_iff (h : t.IsRecased targets pattern)
    (events : ∀ x ∈ t.survey, x.label.form.isEvent = true → x.isGenerated = true) :
    t.IsRecasable targets pattern ∧ t.renamed targets pattern = t ↔
      t.HasRecasedEvents targets pattern := by
  constructor
  · rintro ⟨recasable, same⟩ ht x hx he
    have hr := (isRenameable_of_isEvent he (events x hx he)).2 ht
    obtain ⟨name, hn⟩ := recasable x hx hr
    have hl := relabel_eq_self_iff.1 same x hx
    rw [renamedLabel_eq hr hn] at hl
    have hl : name = x.label.name := congrArg Label.name hl
    rw [hn, hl]
  · intro hevents
    have final : ∀ x ∈ t.survey, isRenameable targets x.site x.label = true →
        pattern.convert x.label.name = .ok x.label.name := by
      intro x hx hr
      cases he : x.label.form.isEvent with
      | false => exact h x hx he hr
      | true => exact hevents ((isRenameable_of_isEvent he (events x hx he)).1 hr) x hx he
    exact renamed_eq_self_of_convert final

end Tree

end Bindery
