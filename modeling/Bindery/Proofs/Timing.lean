import Bindery.Proofs.Clearing
import Bindery.Proofs.Synthesis
import Bindery.Proofs.Wording

/-!
# When documentation is attached

Clearing commutes with all that happens to a tree after documentation, and a tree whose comments are
those of a corpus can be told from what clearing leaves of it. The tree that a run leads to is such a
tree, since an event has the comment of its method and the corpus tells the same of both. Hence
documentation may as well be attached in the end. Main statement: `documentation_at_any_time`.
-/

namespace Bindery

namespace Pass

/-- Does the work of some passes in order, whatever stage the tree is at. -/
def workAll (passes : List Pass) (w : Work) : Work :=
  w.forEach passes fun pass w => (Station.runDirectly { pass } w).2

/-- Two rows of passes come to the same on a tree: if one of them comes to an end, so does the other,
with the same tree. -/
structure EndAlike (passes passes' : List Pass) (t : Tree) : Prop where
  /-- One comes to an end just if the other does. -/
  completes : (workAll passes' { tree := t }).fault = none ↔
    (workAll passes { tree := t }).fault = none
  /-- They come to the same tree. -/
  tree : (workAll passes { tree := t }).fault = none →
    (workAll passes' { tree := t }).tree = (workAll passes { tree := t }).tree

variable {t t₁ t₂ : Tree} {os : List Outcome} {p q : Prop} {passes passes' : List Pass}

/-- Doing nothing comes to the tree itself. -/
theorem workAll_nil {w : Work} (hw : w.IsAt t os) : (workAll [] w).Reaches t os True :=
  ⟨fun _ => hw, fun _ => trivial⟩

/-- Passes come to what the others come to from where the first does. -/
theorem workAll_cons {pass : Pass}
    (first : ∀ w : Work, w.IsAt t os → (pass.work w).Reaches t₁ os p)
    (others : ∀ w : Work, w.IsAt t₁ os → (workAll passes w).Reaches t₂ os q)
    {w : Work} (hw : w.IsAt t os) : (workAll (pass :: passes) w).Reaches t₂ os (p ∧ q) := by
  have hr : (Station.runDirectly { pass } w).2.Reaches t₁ os p :=
    first { w with tally := {} } ⟨hw.fault, hw.tree, hw.outcomes⟩
  have start : w.andThen (fun w => (Station.runDirectly { pass } w).2) =
      (Station.runDirectly { pass } w).2 := by
    rw [Work.andThen, hw.fault]
  rw [workAll, Work.forEach, List.foldl_cons, start]
  change ((Station.runDirectly { pass } w).2.forEach passes _).Reaches t₂ os (p ∧ q)
  cases hf : (Station.runDirectly { pass } w).2.fault with
  | none =>
    have hp := hr.needed hf
    have hq := others _ (hr.done hp)
    exact ⟨fun hpq => hq.done hpq.2, fun hn => ⟨hp, hq.needed hn⟩⟩
  | some fault =>
    have stopped : (Station.runDirectly { pass } w).2.fault ≠ none := by simp [hf]
    rw [Work.forEach_of_stopped passes _ stopped]
    exact ⟨fun hpq => absurd (hr.done hpq.1).fault stopped, fun hn => absurd hn stopped⟩

/-- Rows of passes that come to the same tree under the same condition end alike. -/
theorem EndAlike.of_reaches (h : (workAll passes { tree := t }).Reaches t₁ os p)
    (h' : (workAll passes' { tree := t }).Reaches t₂ os q) (hpq : p ↔ q) (ht : p → t₂ = t₁) :
    EndAlike passes passes' t where
  completes := ⟨fun hf => (h.done (hpq.2 (h'.needed hf))).fault,
    fun hf => (h'.done (hpq.1 (h.needed hf))).fault⟩
  tree hf := by
    have hp := h.needed hf
    rw [(h.done hp).tree, (h'.done (hpq.1 hp)).tree, ht hp]

end Pass

/-! ## Trees as they are declared -/

/-- Documentation leaves names alone. -/
theorem name_documentedLabel (corpus : Corpus) (s : Site) (l : Label) :
    (documentedLabel corpus s l).name = l.name := by
  rw [documentedLabel]
  split
  · split <;> rfl
  · rfl

/-- A label whose parts are what declarations are meant to have: names are texts, so is the signature
that an event has from its source, and the label of a section is simple. -/
structure Label.IsTyped (l : Label) : Prop where
  /-- The target-facing name is a text. -/
  named : l.name.isText = true
  /-- The name in the header is a text. -/
  headerNamed : l.headerName.isText = true
  /-- The label of a section is simple. -/
  sections : ∀ traits, l.form.methodTraits? = some traits → traits.sectionLabel.isSimple = true
  /-- The signature of a source is a text. -/
  sources : ∀ adapter source, l.form.adapter? = some adapter → adapter.source = some source →
    source.signature.isText = true

namespace Label.IsTyped

variable {l : Label}

/-- A label that agrees with such a label is one, if it is named by a text. -/
theorem of_agrees {l' : Label} (h : l.IsTyped) (agrees : l.Agrees l') (text : l'.name.isText = true) :
    l'.IsTyped where
  named := text
  headerNamed := agrees.headerName ▸ h.headerNamed
  sections traits ht := h.sections traits (agrees.methodTraits?.symm.trans ht)
  sources adapter source ha :=
    h.sources adapter source ((agrees.congr_form _ Form.adapter?_unmarked).symm.trans ha)

/-- Names can be recased, to texts. -/
theorem exists_convert (h : l.IsTyped) (pattern : CasePattern) :
    ∃ name, pattern.convert l.name = .ok name ∧ name.isText = true := by
  obtain ⟨s, named⟩ := Value.exists_eq_text h.named
  rw [named]
  exact ⟨_, rfl, rfl⟩

/-- The signature of a declaration with such a label is a text. -/
theorem exists_signature (h : l.IsTyped) : ∃ text, l.signature = .text text := by
  obtain ⟨name, headerName, _, _, _, _, _, form⟩ := l
  cases form with
  | method s traits => exact ⟨_, rfl⟩
  | function s => exact ⟨_, rfl⟩
  | delegate s => exact ⟨_, rfl⟩
  | event adapter =>
    obtain ⟨origin, source, parameters⟩ := adapter
    cases source with
    | none => exact Value.exists_eq_text h.headerNamed
    | some source => exact Value.exists_eq_text (h.sources _ source rfl rfl)
  | _ => exact Value.exists_eq_text h.headerNamed

end Label.IsTyped

namespace Tree

/-- A tree of such declarations, where only methods stand among the methods of a class. -/
structure IsTyped (t : Tree) : Prop where
  /-- The labels are such. -/
  labels : ∀ x ∈ t.survey, x.label.IsTyped
  /-- Methods are methods. -/
  methods : ∀ x ∈ t.survey, x.label.role = .method → x.site.scope ≠ [] →
    x.label.form.isMethod = true

/-- The methods of classes are such declarations. -/
def HasTypedMethods (t : Tree) : Prop :=
  ∀ x ∈ t.survey, ∀ m ∈ x.decl.methods, m.label.IsTyped ∧ m.form.isMethod = true

variable {t : Tree} {corpus : Corpus} {rule : EventRule} {x : Located}

namespace IsTyped

/-- Owners in such a tree have such labels. -/
theorem chain (h : t.IsTyped) (hx : x ∈ t.survey) : ∀ l ∈ x.chain, l.IsTyped := by
  intro l hl
  obtain ⟨y, hy, -, rfl⟩ := (mem_chain_iff hx).1 hl
  exact h.labels y hy

/-- What stands below a unit stands in the chain. -/
theorem mem_of_mem_belowUnit {c : Chain} {l : Label} (h : l ∈ c.belowUnit) : l ∈ c :=
  (List.takeWhile_prefix _).subset (List.mem_reverse.1 h)

/-- Classes in such a tree have full names. -/
theorem hasNamedClasses (h : t.IsTyped) : t.hasNamedClasses = true := by
  rw [Tree.hasNamedClasses, List.all_eq_true]
  intro x hx
  have named : x.chain.isNamed = true :=
    List.all_eq_true.2 fun l hl => (h.chain hx l (mem_of_mem_belowUnit hl)).named
  rw [named, Bool.or_true]

/-- Everything in such a tree can be looked up. -/
theorem isDocumentable (h : t.IsTyped) : t.IsDocumentable corpus := by
  intro x hx _
  have scope : Chain.isHeaderNamed x.site.scope = true := by
    refine List.all_eq_true.2 fun l hl => (h.chain hx l ?_).headerNamed
    exact List.mem_cons_of_mem _ (mem_of_mem_belowUnit hl)
  obtain ⟨signature, hs⟩ := (h.labels x hx).exists_signature
  rw [Corpus.lookupAt, if_pos scope, hs, Corpus.find]
  cases corpus.lookup x.site.owner signature <;> exact ⟨_, rfl⟩

/-- Every name in such a tree can be recased. -/
theorem isRecasable (h : t.IsTyped) (targets : List RenameTarget) (pattern : CasePattern) :
    t.IsRecasable targets pattern := by
  intro x hx _
  obtain ⟨name, hn, -⟩ := (h.labels x hx).exists_convert pattern
  exact ⟨name, hn⟩

/-- Such a tree stays so when its labels agree with those before, if names stay texts. -/
theorem relabel (h : t.IsTyped) {f : Site → Label → Label} (agrees : t.AgreesUnder f)
    (text : ∀ x ∈ t.survey, (f x.site x.label).name.isText = true) : (t.relabel f).IsTyped where
  labels y hy := by
    obtain ⟨x, hx, rfl⟩ := mem_survey_relabel.1 hy
    rw [Located.label_relabel]
    exact (h.labels x hx).of_agrees (agrees x hx) (text x hx)
  methods y hy hr hs := by
    obtain ⟨x, hx, rfl⟩ := mem_survey_relabel.1 hy
    rw [Located.label_relabel, (agrees x hx).role] at hr
    rw [Located.label_relabel, (agrees x hx).isMethod]
    refine h.methods x hx hr fun top => hs ?_
    rw [Located.site_relabel, Site.relabel, top]
    rfl

/-- Whether a tree is such a tree is no matter of the stage. -/
theorem atStage (h : t.IsTyped) {stage : Stage} : IsTyped { t with stage } := ⟨h.labels, h.methods⟩

/-- Such a tree stays so without its comments. -/
theorem cleared (h : t.IsTyped) : t.cleared.IsTyped :=
  h.relabel (fun x _ => (x.mayRead_comment .null).hasTags.agrees) fun x hx => (h.labels x hx).named

/-- Attaching documentation keeps it such a tree. -/
theorem documentedLabel (h : t.IsTyped) (corpus : Corpus) :
    (t.relabel (documentedLabel corpus)).IsTyped :=
  h.relabel (fun x _ => (mayRead_documentedLabel corpus x).hasTags.agrees) fun x hx => by
    rw [name_documentedLabel]
    exact (h.labels x hx).named

/-- Recasing names keeps it such a tree. -/
theorem recased (h : t.IsTyped) (targets : List RenameTarget) (pattern : CasePattern) :
    (t.renamed targets pattern).IsTyped := by
  refine h.relabel (fun x _ => (mayRead_renamedLabel _ _ x).hasTags.agrees) fun x hx => ?_
  obtain ⟨name, hn, text⟩ := (h.labels x hx).exists_convert pattern
  rw [renamedLabel, hn]
  split
  · exact text
  · exact (h.labels x hx).named

/-- Renaming a documented tree keeps it such a tree. -/
theorem renamed {settings : RunSettings} (h : t.IsTyped) : (settings.renamed corpus t).IsTyped :=
  (h.cleared.documentedLabel corpus).recased settings.targets settings.pattern

/-- The methods of classes in such a tree. -/
theorem hasTypedMethods (h : t.IsTyped) : t.HasTypedMethods := by
  intro x hx m hm
  obtain ⟨hm, role⟩ := List.mem_filter.1 hm
  obtain ⟨i, hi⟩ := List.mem_iff_getElem?.1 hm
  have member := member_mem_survey hx hi
  exact ⟨h.labels _ member, h.methods _ member (beq_iff_eq.1 role) (List.cons_ne_nil _ _)⟩

end IsTyped

/-- Classes keep such methods when they get events. -/
theorem HasTypedMethods.extend (h : t.HasTypedMethods) {g : Site → Decl → List Decl}
    (hg : t.GainsUnder g) : (t.extend g).HasTypedMethods := by
  intro y hy m hm
  rcases hg.cases y hy with ⟨x, hx, rfl⟩ | ⟨x, hx, i, e, he, rfl⟩
  · obtain ⟨i, hi⟩ := List.mem_iff_getElem?.1 hm
    obtain ⟨n, hn, hl⟩ := EventRule.exists_method_of_extend (fun e he => (hg x hx e he).role) hi
    rw [Decl.form, ← hl]
    exact h x hx n (List.mem_of_getElem? hn)
  · rw [Located.decl_member, Decl.methods, Decl.membersIn, he.leaf] at hm
    cases hm

/-- Attaching events comes to an end if classes have full names and such methods, of which it can be
told whether they qualify. -/
theorem HasTypedMethods.isAttachable (h : t.HasTypedMethods) (named : t.hasNamedClasses = true)
    (pass : Pass) (hr : pass.eventRule? t = some rule)
    (judges : ∀ l : Label, l.IsTyped → l.form.isMethod = true → pass.judges l = true) :
    t.IsAttachable rule := by
  refine isAttachable_of_methods named (fun x hx _ m hm _ => ?_) fun x hx _ m hm => ?_
  · obtain ⟨typed, method⟩ := h x hx m hm
    exact (Pass.judges_iff hr method).1 (judges m.label typed method)
  · exact Pass.exists_wantedName hr (h x hx m hm).1.named

/-- Such a tree can be finished. -/
theorem IsTyped.isFinishable (h : t.IsTyped) (settings : RunSettings) (corpus : Corpus) :
    settings.IsFinishable corpus t := by
  have cleared : t.cleared.IsTyped := h.cleared
  have renamed : (settings.renamed corpus t).IsTyped := h.renamed
  have gains := (settings.renamed corpus t).gainsUnder_additions settings.signals.rule
  have named : (settings.signalled corpus t).hasNamedClasses = true :=
    (hasNamedClasses_extend gains).trans renamed.hasNamedClasses
  have signals : ∀ l : Label, l.IsTyped → l.form.isMethod = true →
      (Pass.signalEvents settings.signals).judges l = true := by
    intro l hl hm
    obtain ⟨traits, ht⟩ := Option.isSome_iff_exists.1 hm
    rw [Pass.judges, ht]
    exact hl.sections traits ht
  exact {
    documentable := cleared.isDocumentable
    recasable := isRecasable_cleared.1 (by
      rw [cleared_documented]
      exact cleared.isRecasable _ _)
    signals := renamed.hasTypedMethods.isAttachable renamed.hasNamedClasses
      (.signalEvents settings.signals) rfl signals
    named
    hooks := (renamed.hasTypedMethods.extend gains).isAttachable named
      (.hookEvents settings.hooks) rfl fun _ _ _ => rfl }

/-- A loaded tree is such a tree if the labels of sections are simple. -/
theorem IsLoaded.isTyped (h : t.IsLoaded)
    (sections : ∀ x ∈ t.survey, ∀ traits, x.label.form.methodTraits? = some traits →
      traits.sectionLabel.isSimple = true) : t.IsTyped where
  labels x hx := by
    have loaded := h.label x hx
    refine ⟨loaded.named, loaded.headerNamed, sections x hx, fun adapter source ha => ?_⟩
    have event := loaded.event
    rw [Form.isEvent, ha] at event
    cases event
  methods := h.isShaped.methods

end Tree

/-! ## Two orders -/

namespace Tree

variable {t : Tree} {corpus : Corpus} {rule : EventRule}

/-- What was there before events were attached can be looked up if everything can. -/
theorem isDocumentable_of_withEvents (h : (t.withEvents rule).IsDocumentable corpus) :
    t.IsDocumentable corpus := by
  intro x hx hd
  have hx' := extend_mem_survey rule.additions x hx
  have he := h _ hx'
  rw [Located.label_extend, Located.site_extend] at he
  exact he hd

/-- Everything can be looked up in the cleared tree just if it can in the tree. -/
theorem isDocumentable_cleared : t.cleared.IsDocumentable corpus ↔ t.IsDocumentable corpus :=
  isDocumentable_relabel_iff fun x _ => x.mayRead_comment .null

/-- Documentation and renaming commute. -/
theorem renamed_relabel_documentedLabel (corpus : Corpus) (targets : List RenameTarget)
    (pattern : CasePattern) (t : Tree) :
    (t.relabel (documentedLabel corpus)).renamed targets pattern =
      (t.renamed targets pattern).relabel (documentedLabel corpus) := by
  have documented : ∀ x ∈ t.survey, x.MayRead (documentedLabel corpus x.site x.label) :=
    fun x _ => mayRead_documentedLabel corpus x
  have renamed : ∀ x ∈ t.survey, x.MayRead (renamedLabel targets pattern x.site x.label) :=
    fun x _ => mayRead_renamedLabel targets pattern x
  rw [Tree.renamed, Tree.renamed, relabel_relabel, relabel_relabel]
  refine relabel_congr fun x hx => ?_
  have hr : isRenameable targets (x.relabel (documentedLabel corpus)).site
      (x.relabel (documentedLabel corpus)).label = isRenameable targets x.site x.label :=
    isRenameable_relabel documented hx
  have hd := isDocumentable_relabel renamed hx
  have hl := lookupAt_relabel corpus renamed hx
  have hn := name_documentedLabel corpus x.site x.label
  rw [Located.label_relabel, Located.site_relabel] at hr hd hl
  rw [renamedLabel, hr, hn, documentedLabel.eq_1 corpus (x.site.relabel _), hd, hl, documentedLabel,
    renamedLabel]
  -- Either side has the recased name, if there is one, and the text of the corpus, if there is one.
  cases isRenameable targets x.site x.label <;> cases isDocumentable x.site x.label <;>
    rcases pattern.convert x.label.name with fault | name <;>
    rcases corpus.lookupAt x.site x.label with fault | _ | text <;> rfl

/-- Names can be recased with documentation just if they can without it. -/
theorem isRecasable_relabel_documentedLabel (corpus : Corpus) {targets : List RenameTarget}
    {pattern : CasePattern} :
    (t.relabel (documentedLabel corpus)).IsRecasable targets pattern ↔
      t.IsRecasable targets pattern := by
  rw [← isRecasable_cleared, cleared_relabel_documentedLabel, isRecasable_cleared]

/-- Everything can be looked up in the renamed tree just if it can in the tree. -/
theorem isDocumentable_renamed {targets : List RenameTarget} {pattern : CasePattern} :
    (t.renamed targets pattern).IsDocumentable corpus ↔ t.IsDocumentable corpus :=
  isDocumentable_relabel_iff fun x _ => mayRead_renamedLabel targets pattern x

/-- A documented tree comes back when it is cleared and documented. -/
theorem IsDocumented.relabel_cleared (h : t.IsDocumented corpus) :
    t.cleared.relabel (documentedLabel corpus) = t := h.documented_eq_self

end Tree

namespace RunSettings

variable (settings : RunSettings) (corpus : Corpus) (t : Tree)

/-- What clearing leaves of the renamed tree. -/
theorem cleared_renamed : (settings.renamed corpus t).cleared =
    t.cleared.renamed settings.targets settings.pattern := by
  rw [renamed, Tree.cleared_renamed, Tree.cleared_documented]

/-- What clearing leaves of the tree with events for signals. -/
theorem cleared_signalled : (settings.signalled corpus t).cleared =
    (settings.renamed corpus t).cleared.withEvents settings.signals.rule := by
  rw [signalled, Tree.cleared_withEvents settings.signals.ignoresComments_rule]

/-- What clearing leaves of the tree with all events. -/
theorem cleared_finish : (settings.finish corpus t).cleared =
    (settings.signalled corpus t).cleared.withEvents
      (settings.hooks.rule (settings.signalled corpus t).cleared.baseIndex) := by
  rw [finish, hookRule, Tree.cleared_withEvents (settings.hooks.ignoresComments_rule _),
    Tree.baseIndex_cleared]

/-- The passes of a run that document, rename and synthesize, with documentation at the end. -/
def deferredPasses : List Pass :=
  [.clearComments, .rename settings.targets settings.pattern, .signalEvents settings.signals,
    .hookEvents settings.hooks, .backfillComments corpus]

/-- The passes that document, rename and synthesize finish a tree. -/
theorem workAll_laterPasses :
    (Pass.workAll (settings.laterPasses corpus) { tree := t }).Reaches (settings.finish corpus t) []
      (settings.IsFinishable corpus t) := by
  have start : Work.IsAt t [] { tree := t } := ⟨rfl, rfl, rfl⟩
  refine Work.Reaches.congr (Pass.workAll_cons (fun _ => Pass.reaches_clearComments) (fun _ =>
    Pass.workAll_cons (fun _ => Pass.reaches_backfillComments corpus) (fun _ =>
      Pass.workAll_cons (fun _ => Pass.reaches_rename settings.targets settings.pattern) (fun _ =>
        Pass.workAll_cons (fun _ => Pass.reaches_signalEvents settings.signals) (fun _ =>
          Pass.workAll_cons (fun _ => Pass.reaches_hookEvents settings.hooks) fun _ =>
            Pass.workAll_nil)))) start) ?_
  exact ⟨fun ⟨_, hd, hr, hs, ⟨hn, hh⟩, _⟩ => ⟨hd, hr, hs, hn, hh⟩,
    fun h => ⟨trivial, h.documentable, h.recasable, h.signals, ⟨h.named, h.hooks⟩, trivial⟩⟩

/-- With documentation at the end, they document what clearing leaves of the finished tree. -/
theorem workAll_deferredPasses :
    (Pass.workAll (settings.deferredPasses corpus) { tree := t }).Reaches
      ((settings.finish corpus t).cleared.relabel (documentedLabel corpus)) []
      (settings.IsFinishable corpus t) := by
  have start : Work.IsAt t [] { tree := t } := ⟨rfl, rfl, rfl⟩
  rw [cleared_finish, cleared_signalled, cleared_renamed]
  refine Work.Reaches.congr (Pass.workAll_cons (fun _ => Pass.reaches_clearComments) (fun _ =>
    Pass.workAll_cons (fun _ => Pass.reaches_rename settings.targets settings.pattern) (fun _ =>
      Pass.workAll_cons (fun _ => Pass.reaches_signalEvents settings.signals) (fun _ =>
        Pass.workAll_cons (fun _ => Pass.reaches_hookEvents settings.hooks) (fun _ =>
          Pass.workAll_cons (fun _ => Pass.reaches_backfillComments corpus) fun _ =>
            Pass.workAll_nil)))) start) ?_
  rw [← cleared_renamed settings corpus, ← cleared_signalled, ← cleared_finish,
    Tree.isAttachable_cleared settings.signals.ignoresComments_rule, Tree.hasNamedClasses_cleared,
    Tree.baseIndex_cleared, Tree.isAttachable_cleared (settings.hooks.ignoresComments_rule _),
    Tree.isDocumentable_cleared, ← Tree.isRecasable_relabel_documentedLabel corpus]
  constructor
  · rintro ⟨_, hr, hs, ⟨hn, hh⟩, hd, _⟩
    have renamed : (settings.renamed corpus t).IsDocumentable corpus :=
      Tree.isDocumentable_of_withEvents (Tree.isDocumentable_of_withEvents hd)
    have documented : (t.documented corpus).IsDocumentable corpus :=
      Tree.isDocumentable_renamed.1 renamed
    have documentable : t.cleared.IsDocumentable corpus :=
      (Tree.isDocumentable_relabel_iff fun x _ => mayRead_documentedLabel corpus x).1 documented
    exact ⟨documentable, hr, hs, hn, hh⟩
  · intro h
    exact ⟨trivial, h.recasable, h.signals, ⟨h.named, h.hooks⟩,
      (Tree.isDocumented_finish h).documentable, trivial⟩

/-- With documentation at the end, the passes end as they do with documentation at the beginning. -/
theorem endAlike_deferredPasses :
    Pass.EndAlike (settings.laterPasses corpus) (settings.deferredPasses corpus) t :=
  .of_reaches (settings.workAll_laterPasses corpus t) (settings.workAll_deferredPasses corpus t)
    Iff.rfl fun h => (Tree.isDocumented_finish h).relabel_cleared

/-- On a tree that is ready for them, the passes end in a pipeline as they do one by one. -/
theorem run_laterPasses (ready : Stage.resolved ≤ t.stage) :
    let piped := ((Pipeline.ofPasses (settings.laterPasses corpus)).run { tree := t }).2
    let done := Pass.workAll (settings.laterPasses corpus) { tree := t }
    (piped.fault = none ↔ done.fault = none) ∧
      (done.fault = none → piped.tree = { done.tree with stage := piped.tree.stage }) := by
  intro piped done
  have areReady : Pass.AreReady (settings.laterPasses corpus) t.stage := by
    revert ready
    generalize t.stage = stage
    intro ready
    cases stage <;> simp [laterPasses, Pass.AreReady, Pass.needs, Pass.leadsTo] <;> revert ready <;>
      decide
  have hp : piped.Reaches _ [] (settings.IsFinishable corpus t) :=
    settings.lead_laterPasses corpus t [] _ { tree := t } t.stage (Pipeline.passes_ofPasses _)
      areReady ⟨rfl, rfl, rfl⟩
  have hd : done.Reaches _ [] (settings.IsFinishable corpus t) :=
    settings.workAll_laterPasses corpus t
  refine ⟨⟨fun h => (hd.done (hp.needed h)).fault, fun h => (hp.done (hd.needed h)).fault⟩, ?_⟩
  intro h
  rw [(hp.done (hd.needed h)).tree, (hd.done (hd.needed h)).tree]

end RunSettings

/-- Documentation and renaming end alike in either order. -/
theorem Pass.endAlike_backfillComments_rename (corpus : Corpus) (targets : List RenameTarget)
    (pattern : CasePattern) (t : Tree) :
    EndAlike [.backfillComments corpus, .rename targets pattern]
      [.rename targets pattern, .backfillComments corpus] t := by
  have start : Work.IsAt t [] { tree := t } := ⟨rfl, rfl, rfl⟩
  refine .of_reaches
    (workAll_cons (fun _ => reaches_backfillComments corpus) (fun _ =>
      workAll_cons (fun _ => reaches_rename targets pattern) fun _ => workAll_nil) start)
    (workAll_cons (fun _ => reaches_rename targets pattern) (fun _ =>
      workAll_cons (fun _ => reaches_backfillComments corpus) fun _ => workAll_nil) start)
    ?_ fun _ => (t.renamed_relabel_documentedLabel corpus targets pattern).symm
  rw [Tree.isRecasable_relabel_documentedLabel, Tree.isDocumentable_renamed]
  tauto

/-- Documentation does not depend on when it is attached: clearing, documenting, renaming and
synthesizing events end alike, with the same tree, if documentation comes right after clearing, as in
a run, and if it comes last. They come to an end on every tree of declarations as they are meant to
be, and in a pipeline as they do one by one. So documentation and renaming commute; and in the end
every declaration that is generated, such as a new event, has the comment that the corpus tells of
it. -/
theorem documentation_at_any_time (settings : RunSettings) (corpus : Corpus) (t : Tree) :
    let early : List Pass := [.clearComments, .backfillComments corpus,
      .rename settings.targets settings.pattern, .signalEvents settings.signals,
      .hookEvents settings.hooks]
    let late : List Pass := [.clearComments, .rename settings.targets settings.pattern,
      .signalEvents settings.signals, .hookEvents settings.hooks, .backfillComments corpus]
    let piped := ((Pipeline.ofPasses early).run { tree := t }).2
    let done := Pass.workAll early { tree := t }
    Pass.EndAlike early late t ∧
      (t.IsTyped → done.fault = none) ∧
      (Stage.resolved ≤ t.stage → (piped.fault = none ↔ done.fault = none) ∧
        (done.fault = none → piped.tree = { done.tree with stage := piped.tree.stage })) ∧
      Pass.EndAlike [.backfillComments corpus, .rename settings.targets settings.pattern]
        [.rename settings.targets settings.pattern, .backfillComments corpus] t ∧
      (done.fault = none → ∀ x ∈ done.tree.survey, isDocumentable x.site x.label = true →
        ∃ found, corpus.lookupAt x.site x.label = .ok found ∧
          x.label.comment = (found.map Value.text).getD .null) := by
  intro early late piped done
  have hd : done.Reaches (settings.finish corpus t) [] (settings.IsFinishable corpus t) :=
    settings.workAll_laterPasses corpus t
  refine ⟨settings.endAlike_deferredPasses corpus t, fun h => ?_,
    settings.run_laterPasses corpus t,
    Pass.endAlike_backfillComments_rename corpus settings.targets settings.pattern t, ?_⟩
  · exact (hd.done (h.isFinishable settings corpus)).fault
  · intro h x hx wanted
    rw [(hd.done (hd.needed h)).tree] at hx
    have documented := Tree.isDocumented_finish (hd.needed h)
    obtain ⟨found, hf⟩ := documented.documentable x hx wanted
    refine ⟨found, hf, ?_⟩
    rw [documented.comments x hx, Corpus.commentAt, if_pos wanted, hf]
    cases found <;> rfl

/-- The settings of a run with one section for signals. -/
def RunSettings.sample : RunSettings where
  marks := {}
  targets := [.method, .event]
  pattern := .upperCamel
  signals := { sections := [.text "Q_SIGNALS"] }
  hooks := {}

/-- A corpus that tells of the signal of the sample. -/
def Corpus.sample : Corpus := ⟨[(⟨"Palette", "changed()"⟩, "Emitted when a color changes.")]⟩

/-- In the sample, a signal and its event have their comment at any time. -/
theorem documentation_at_any_time_sample :
    let t : Tree := { Tree.sampleTree with stage := .resolved }
    let early := Pass.workAll (RunSettings.sample.laterPasses Corpus.sample) { tree := t }
    let late := Pass.workAll (RunSettings.sample.deferredPasses Corpus.sample) { tree := t }
    t.IsTyped ∧ Stage.resolved ≤ t.stage ∧ early.fault = none ∧ late.tree = early.tree ∧
      (early.tree.survey.any fun x => x.label.form.isEvent &&
        decide (x.label.comment = .text "Emitted when a color changes.")) = true := by
  intro t early late
  have loaded : Tree.sampleTree.IsLoaded := Tree.isLoaded_ofDocument Tree.ofDocument_sampleDump
  have sections : (Tree.sampleTree.survey.all fun x =>
      x.label.form.methodTraits?.all fun traits => traits.sectionLabel.isSimple) = true := by
    decide +kernel
  have typed : t.IsTyped := by
    have h := loaded.isTyped fun x hx traits ht => by
      have hs := List.all_eq_true.1 sections x hx
      rwa [ht] at hs
    exact ⟨h.labels, h.methods⟩
  have h := documentation_at_any_time RunSettings.sample Corpus.sample t
  exact ⟨typed, by decide, h.2.1 typed, h.1.tree (h.2.1 typed), by decide +kernel⟩

end Bindery
