import Bindery.Proofs.Accounting
import Bindery.Proofs.Naming
import Bindery.Proofs.Retrieval

/-!
# How much is documented

What is documented is counted twice: when documentation is attached, and for the report. In between
only events are added, which have the comments of their sources. The first count is of what a text
was found for, and the second of what has a comment that is not empty, so they differ by what got the
empty text. Only a raw entry whose text is nothing but blanks is filed with the empty text. Main
statement: `report_documents`.
-/

namespace Bindery

/-! ## What was there from the first -/

namespace Tree

variable {t : Tree} {settings : RunSettings} {corpus : Corpus}

/-- The declarations of a tree that are no events. If there were no events at first, these are the
declarations that were there from the first. -/
def originals (t : Tree) : List Located := t.survey.filter fun y => !y.label.form.isEvent

/-- Where a declaration stands, and its comment. -/
def remark (y : Located) : List Nat × Value := (y.site.address, y.label.comment)

/-- Relabelling moves nothing. -/
theorem addresses_relabel (f : Site → Label → Label) (t : Tree) :
    (t.relabel f).survey.map (fun y => y.site.address) = t.survey.map fun x => x.site.address := by
  rw [survey_relabel, List.map_map]
  refine List.map_congr_left fun x _ => ?_
  rw [Function.comp, Located.site_relabel, Site.address_relabel]

/-- Without events, everything was there from the first. -/
theorem IsEventFree.originals_eq (h : t.IsEventFree) : t.originals = t.survey :=
  List.filter_eq_self.2 fun x hx => by rw [h x hx]; rfl

/-- What was there from the first is there with the events of a rule, and has the comment that it
had. -/
theorem remark_withEvents (rule : EventRule) (t : Tree) :
    (t.withEvents rule).originals.map remark = t.originals.map remark := by
  have kept : (t.withEvents rule).originals = t.originals.map (Located.extend rule.additions) :=
    filter_survey_extend (p := fun _ l => !l.form.isEvent) fun x hx e he => by
      have gain := gainsUnder_additions rule t x hx e he
      exact ⟨gain.leaf, fun _ => by rw [gain.event]; rfl⟩
  rw [kept, List.map_map]
  refine List.map_congr_left fun x _ => ?_
  rw [Function.comp, remark, Located.label_extend]
  rfl

/-- Renaming leaves comments alone. -/
theorem comment_renamedLabel (targets : List RenameTarget) (pattern : CasePattern) (s : Site)
    (l : Label) : (renamedLabel targets pattern s l).comment = l.comment := by
  rw [renamedLabel]
  split
  · split <;> rfl
  · rfl

/-- Documenting and renaming makes no events. -/
theorem IsEventFree.renamed (free : t.IsEventFree) :
    (settings.renamed corpus t).IsEventFree := by
  have cleared : t.cleared.IsEventFree :=
    free.relabel fun x _ => (x.mayRead_comment .null).hasTags.agrees
  have documented : (t.documented corpus).IsEventFree :=
    cleared.relabel fun x _ => (mayRead_documentedLabel corpus x).hasTags.agrees
  exact documented.relabel fun x _ => (mayRead_renamedLabel _ _ x).hasTags.agrees

/-- Classification, policy and resolution make no events. -/
theorem IsEventFree.settle (free : t.IsEventFree) (root : WrittenPath) (marks : PrivateMarks)
    (policy : Policy) : (t.settle root marks policy).IsEventFree := by
  intro y hy
  obtain ⟨x, hx, rfl⟩ := mem_survey_settle.1 hy
  rw [(agrees_settle hx).isEvent]
  exact free x hx

/-- Classification, policy and resolution move nothing. -/
theorem addresses_settle (root : WrittenPath) (marks : PrivateMarks) (policy : Policy) (t : Tree) :
    (t.settle root marks policy).survey.map (fun y => y.site.address) =
      t.survey.map fun x => x.site.address := by
  rw [Tree.settle, resolve, addresses_relabel, normalized, addresses_relabel, classified,
    addresses_relabel]

/-- In a finished tree, what was there from the first has the comment that the corpus tells. -/
theorem remark_finish (free : t.IsEventFree) :
    (settings.finish corpus t).originals.map remark = t.cleared.survey.map fun x =>
      (x.site.address, corpus.commentAt x.site x.label) := by
  rw [RunSettings.finish, remark_withEvents, RunSettings.signalled, remark_withEvents,
    free.renamed.originals_eq, RunSettings.renamed, Tree.renamed, survey_relabel, documented,
    survey_relabel, List.map_map, List.map_map]
  refine List.map_congr_left fun x hx => ?_
  have blank : x.label.comment = .null := by
    obtain ⟨z, -, rfl⟩ := mem_survey_relabel.1 hx
    rw [Located.label_relabel]
  rw [Function.comp, Function.comp, remark, Located.label_relabel, comment_renamedLabel,
    Located.label_relabel, Corpus.documentedLabel_eq blank]
  rfl

/-! ## What events are made from -/

/-- The source of the event at an address. -/
def source? (t : Tree) (address : List Nat) (source : EventSource) : Option Decl :=
  match source.target with
  | .sibling i => (t.locate? address.dropLast).bind fun owner => owner.decl.methods[i]?
  | .elsewhere steps => Decl.follow? t.units steps

/-- Whether a declaration is an event whose source has a comment that is not empty. -/
def isOfDocumented (t : Tree) (y : Located) : Bool :=
  y.label.form.adapter?.any fun a => a.source.any fun source =>
    (t.source? y.site.address source).any fun m => m.label.comment.isGiven

/-- Whether every event is made from a method of its class and has the comment of it. -/
def IsSourced (t : Tree) : Prop :=
  ∀ y ∈ t.survey, y.label.form.isEvent = true → ∃ o ∈ t.survey, ∃ i m,
    y.site.address.dropLast = o.site.address ∧ o.decl.methods[i]? = some m ∧
      y.decl.IsMadeFrom i m ∧ y.label.comment = m.label.comment

/-- Where every event has the comment of its source, events are told by the comments of these. -/
theorem IsSourced.isOfDocumented_eq (h : t.IsSourced) {y : Located} (hy : y ∈ t.survey) :
    t.isOfDocumented y = (y.label.form.isEvent && y.label.comment.isGiven) := by
  cases event : y.label.form.isEvent with
  | false =>
    have none : y.label.form.adapter? = none :=
      Option.isNone_iff_eq_none.1 (Option.isSome_eq_false_iff.1 event)
    rw [isOfDocumented, none]
    rfl
  | true =>
    obtain ⟨o, ho, i, m, owner, method, ⟨a, ha, hs⟩, comment⟩ := h y hy event
    have ha : y.label.form.adapter? = some a := ha
    rw [isOfDocumented, ha, Option.any_some, hs, Option.any_some, source?]
    simp only [owner, locate?_address ho, Option.bind_some, method, Option.any_some, comment,
      Bool.true_and]

/-- A class with the events of a rule has its methods where it had them. -/
theorem exists_method_extend (rule : EventRule) {x : Located} (hx : x ∈ t.survey) {i : Nat}
    {m : Decl} (hm : x.decl.methods[i]? = some m) :
    ∃ m', (x.extend rule.additions).decl.methods[i]? = some m' ∧ m'.label = m.label := by
  have labels := EventRule.map_label_methods_extend (x := x) (g := rule.additions)
    fun e he => (gainsUnder_additions rule t x hx e he).role
  have hi : ((x.extend rule.additions).decl.methods.map Decl.label)[i]? = some m.label := by
    rw [labels, List.getElem?_map, hm, Option.map_some]
  rw [List.getElem?_map] at hi
  exact Option.map_eq_some_iff.1 hi

/-- Attaching the events of a rule keeps it so. -/
theorem IsSourced.withEvents (h : t.IsSourced) (rule : EventRule) :
    (t.withEvents rule).IsSourced := by
  intro y hy event
  -- An event that was there keeps its source, as methods stay in their places; one that is attached
  -- gets the comment of the method that it is attached for.
  rcases withEvents_cases rule hy with ⟨x, hx, rfl⟩ | ⟨x, hx, eventful, i, e, he, rfl⟩
  · rw [Located.label_extend] at event
    obtain ⟨o, ho, i, m, owner, hm, made, comment⟩ := h x hx event
    obtain ⟨m', hm', label⟩ := exists_method_extend rule ho hm
    obtain ⟨a, ha, hs⟩ := made
    have form : (x.extend rule.additions).decl.form = x.decl.form :=
      congrArg Label.form (Located.label_extend _ x)
    refine ⟨_, extend_mem_survey _ o ho, i, m', owner, hm', ⟨a, ?_, ?_⟩, ?_⟩
    · rw [form, ha]
    · rw [label, hs]
    · rw [Located.label_extend, comment, label]
  · obtain ⟨k, m, hm, -, isFor⟩ := EventRule.exists_due_of_mem_attached eventful he
    obtain ⟨m', hm', label⟩ := exists_method_extend rule hx hm
    obtain ⟨parameters, form, -⟩ := isFor.adapter
    refine ⟨_, extend_mem_survey _ x hx, k, m', ?_, hm', ⟨_, congrArg Form.adapter? form, ?_⟩, ?_⟩
    · rw [Located.address_member, List.dropLast_concat]
    · rw [label]
    · rw [Located.label_member, isFor.comment, label]

/-- What finishing makes of a tree without events is so. -/
theorem IsEventFree.isSourced_finish (free : t.IsEventFree) :
    (settings.finish corpus t).IsSourced := by
  have start : (settings.renamed corpus t).IsSourced := fun y hy event => by
    rw [free.renamed y hy] at event
    cases event
  exact (start.withEvents _).withEvents _

/-- Where every event has the comment of its source, a report counts what was there from the first
and has a comment, and the events of what has one. -/
theorem IsSourced.documentedCount_eq (h : t.IsSourced) : Report.documentedCount t =
    t.originals.countP (fun y => y.label.comment.isGiven) + t.survey.countP t.isOfDocumented := by
  have events : (t.survey.filter fun y => !!y.label.form.isEvent).countP
      (fun y => y.label.comment.isGiven) = t.survey.countP t.isOfDocumented := by
    rw [List.countP_filter]
    refine List.countP_congr fun y hy => ?_
    rw [h.isOfDocumented_eq hy, Bool.not_not, Bool.and_comm]
  rw [Report.documentedCount, List.countP_eq_countP_filter_add _ _ fun y => !y.label.form.isEvent,
    events, originals]

end Tree

/-! ## Counts -/

/-- What is documented when documentation is attached is what the corpus tells a comment of, if
attaching comes to an end. -/
theorem count_documented (corpus : Corpus) {w : Work} (running : w.fault = none)
    (h : (backfillComments corpus { w with tally := {} }).fault = none) :
    (backfillComments corpus { w with tally := {} }).tally.count "documented" =
      w.tree.survey.countP fun x => corpus.commentAt x.site x.label != .null := by
  have documentable :=
    (backfillComments_turned corpus (w := { w with tally := {} }) running).needed h
  have told : ∀ x : Located, (isDocumented corpus x && isDocumentable x.site x.label) =
      (corpus.commentAt x.site x.label != .null) := by
    intro x
    rw [isDocumented, Corpus.commentAt, Bool.and_comm]
    cases isDocumentable x.site x.label with
    | false => rfl
    | true => rcases corpus.lookupAt x.site x.label with fault | _ | text <;> rfl
  have unread : ∀ key, Tally.count {} key = 0 := fun _ => rfl
  rw [tally_backfillComments documentable]
  simp only [Tally.count_addSome, unread, String.reduceEq, if_true, if_false, List.countP_filter,
    told]
  omega

/-- Of comments that are texts or absent, those that are there are either given or empty. -/
theorem countP_comment_ne_null {ys : List Located}
    (h : ∀ y ∈ ys, y.label.comment = .null ∨ ∃ text, y.label.comment = .text text) :
    (ys.countP fun y => y.label.comment != .null) =
      (ys.countP fun y => y.label.comment.isGiven) +
        ys.countP fun y => y.label.comment == .text "" := by
  induction ys with
  | nil => rfl
  | cons y ys ih =>
    have one : (if y.label.comment != .null then 1 else 0) =
        (if y.label.comment.isGiven then 1 else 0) +
          if y.label.comment == .text "" then 1 else 0 := by
      rcases h y List.mem_cons_self with hn | ⟨text, ht⟩
      · rw [hn]; rfl
      · rw [ht]
        by_cases he : text = "" <;> simp [Value.isGiven, he]
    rw [List.countP_cons, List.countP_cons, List.countP_cons, one,
      ih fun y hy => h y (List.mem_cons_of_mem _ hy)]
    omega

/-- How the comments of a finished run are counted, given the raw entries of its corpus, the tree
that it began with and the final one. -/
structure Report.CountsComments (r : Value) (entries : List Value) (start done : Tree) : Prop where
  /-- What is no event in the end was there from the first. -/
  originals : done.originals.map (fun y => y.site.address) =
    start.survey.map fun x => x.site.address
  /-- What documentation was attached to was there from the first and has a comment, if only the
  empty one. -/
  attached : r.figure ["passes", "backfill_comments", "documented"] =
    (done.originals.countP fun y => y.label.comment.isGiven) +
      done.originals.countP fun y => y.label.comment == .text ""
  /-- What is reported as documented has a comment that is not empty, or is an event whose source
  has one. -/
  reported : r.figure ["stats", "documented"] =
    (done.originals.countP fun y => y.label.comment.isGiven) +
      done.survey.countP done.isOfDocumented
  /-- Empty comments come from raw entries whose text is given and consists of blanks. -/
  empty : ∀ y ∈ done.originals, y.label.comment = .text "" →
    ∃ es, .mapping es ∈ entries ∧ (Corpus.part es "text").isGiven = true ∧ Corpus.told es = ""

namespace RunSettings.Ends

variable {settings : RunSettings} {root : WrittenPath} {policy : Policy} {corpus : Corpus}
  {request : Option InlinesRequest} {hasBuilder : Bool} {t : Tree} {os : List Outcome} {w : Work}

/-- What attaching documentation has recorded as documented. -/
theorem documented (h : settings.Ends root policy corpus request hasBuilder t os w) :
    ∃ tally : Tally,
      ((Pipeline.ofPasses (settings.passes root policy corpus request hasBuilder)).run
        w).1.stats.lookup "backfill_comments" = some tally.toValue ∧
      tally.count "documented" = (t.settle root settings.marks policy).cleared.survey.countP
        fun x => corpus.commentAt x.site x.label != .null := by
  obtain ⟨before, stage, running, tree, ends, record⟩ := h.exists_backfill
  refine ⟨_, record, (count_documented corpus running ends).trans ?_⟩
  rw [tree]
  rfl

/-- What was there from the first has in the end the comment that the corpus tells. -/
theorem remarks (h : settings.Ends root policy corpus request hasBuilder t os w)
    (free : t.IsEventFree) :
    ((Pipeline.ofPasses (settings.passes root policy corpus request hasBuilder)).run
        w).2.tree.originals.map Tree.remark =
      (t.settle root settings.marks policy).cleared.survey.map fun x =>
        (x.site.address, corpus.commentAt x.site x.label) := by
  obtain ⟨stage, final⟩ := h.finished
  rw [final]
  exact Tree.remark_finish (free.settle root settings.marks policy)

/-- In the end, every event is made from a method of its class and has the comment of it. -/
theorem isSourced (h : settings.Ends root policy corpus request hasBuilder t os w)
    (free : t.IsEventFree) :
    ((Pipeline.ofPasses (settings.passes root policy corpus request hasBuilder)).run
      w).2.tree.IsSourced := by
  obtain ⟨stage, final⟩ := h.finished
  rw [final]
  exact (free.settle root settings.marks policy).isSourced_finish

/-- The comments of a run that came to an end are counted. -/
theorem countsComments {entries : List Value}
    (h : settings.Ends root policy (.addEntries {} entries) request hasBuilder t os w)
    (free : t.IsEventFree) {report : Report}
    (noExtra : ∀ e ∈ report.extra, "passes" ≠ e.1 ∧ "stats" ≠ e.1) :
    let ran := (Pipeline.ofPasses (settings.passes root policy (.addEntries {} entries) request
      hasBuilder)).run w
    Report.CountsComments ({ report with passes := ran.1.stats }.toValue ran.2.tree) entries t
      ran.2.tree := by
  intro ran
  obtain ⟨tally, here, count⟩ := h.documented
  have remarks := h.remarks free
  have addresses := congrArg (List.map Prod.fst) remarks
  have comments := congrArg (List.map Prod.snd) remarks
  rw [List.map_map, List.map_map] at addresses comments
  have told : ∀ y ∈ ran.2.tree.originals, ∃ x : Located,
      y.label.comment = Corpus.commentAt (.addEntries {} entries) x.site x.label := by
    intro y hy
    obtain ⟨x, -, hx⟩ := List.mem_map.1 (comments ▸ List.mem_map_of_mem hy)
    exact ⟨x, hx.symm⟩
  let written : Report := { report with passes := ran.1.stats }
  have noPasses : ∀ e ∈ written.extra, "passes" ≠ e.1 := fun e he => (noExtra e he).1
  have noStats : ∀ e ∈ written.extra, "stats" ≠ e.1 := fun e he => (noExtra e he).2
  exact {
    originals := addresses.trans <|
      (Tree.addresses_relabel _ _).trans (Tree.addresses_settle root settings.marks policy t)
    attached := by
      -- What was documented got a text, and no later pass takes it away, even if it is empty.
      have found : tally.count "documented" =
          ran.2.tree.originals.countP fun y => y.label.comment != .null := by
        have same := congrArg (List.countP (· != Value.null)) comments
        rw [List.countP_map, List.countP_map] at same
        exact count.trans same.symm
      have texts : ∀ y ∈ ran.2.tree.originals,
          y.label.comment = .null ∨ ∃ text, y.label.comment = .text text := by
        intro y hy
        obtain ⟨x, hx⟩ := told y hy
        rw [hx]
        exact Corpus.commentAt_cases _ _ _
      rw [← countP_comment_ne_null texts, ← found]
      exact Report.figure_counter noPasses here (by decide) (by decide)
    reported := (Report.figure_documented noStats).trans (h.isSourced free).documentedCount_eq
    empty := by
      intro y hy hc
      obtain ⟨x, hx⟩ := told y hy
      rw [hc, eq_comm, Corpus.commentAt_eq_text_iff, Corpus.lookupAt_eq_ok_some_iff] at hx
      obtain ⟨-, -, key, finds⟩ := hx
      exact Corpus.exists_told_of_lookup finds.filed }

end RunSettings.Ends

/-- The comments of a run on a loaded tree that came to an end are counted, when documentation is
attached and for the report. Unless a raw entry has a text that is given and consists of blanks,
what documentation was attached to is what was there from the first and has a comment in the end that
is not empty, and besides that the report counts the events of what has one. -/
theorem report_documents {source : String} {document : Value} {t : Tree}
    (loaded : Tree.ofDocument source document = .ok t) {info : ModuleInfo} {config : Value}
    {entries : List Value} {request : Option InlinesRequest} {hasBuilder : Bool} {w : Work}
    (tree : w.tree = t)
    (completes :
      (runModule info config (.addEntries {} entries) request hasBuilder w).2.fault = none)
    (report : Report) (free : ∀ e ∈ report.extra, "passes" ≠ e.1 ∧ "stats" ≠ e.1) :
    ∃ pipeline, (runModule info config (.addEntries {} entries) request hasBuilder w).1 =
        some pipeline ∧
      let done := (runModule info config (.addEntries {} entries) request hasBuilder w).2.tree
      let r := { report with passes := pipeline.stats }.toValue done
      Report.CountsComments r entries t done ∧
      ((∀ es, .mapping es ∈ entries → (Corpus.part es "text").isGiven = true →
          Corpus.told es ≠ "") →
        r.figure ["passes", "backfill_comments", "documented"] =
            done.originals.countP (fun y => y.label.comment.isGiven) ∧
          r.figure ["stats", "documented"] =
            r.figure ["passes", "backfill_comments", "documented"] +
              done.survey.countP done.isOfDocumented) := by
  subst tree
  have hl := Tree.isLoaded_ofDocument loaded
  obtain ⟨policy, settings, -, -, run⟩ := exists_passes_of_runModule completes
  rw [run] at completes ⊢
  have ended : settings.Ends info.root policy (.addEntries {} entries) request hasBuilder w.tree
      w.outcomes { w with fault := none } := ⟨hl.isShaped, ⟨rfl, rfl, rfl⟩, completes⟩
  have counts := ended.countsComments (fun x hx => (hl.label x hx).event) free
  refine ⟨_, rfl, counts, fun given => ?_⟩
  have none := List.countP_eq_zero.2 fun y hy he => by
    obtain ⟨es, hm, hg, ht⟩ := counts.empty y hy (beq_iff_eq.1 he)
    exact given es hm hg ht
  rw [counts.reported, counts.attached, none]
  exact ⟨rfl, rfl⟩

/-- The comments of the sample are counted where its signal is documented; both counts agree with
the tree, since no text that is given is blank. -/
theorem report_documents_sample :
    let entries : List Value := [.mapping [("type", .text "Palette"), ("member", .text "changed()"),
      ("text", .text "Emitted when a color changes. ")]]
    let ran := runModule .sample (.mapping Config.defaults) (.addEntries {} entries) none false
      { tree := Tree.sampleTree }
    ran.2.fault = none ∧ ∃ pipeline, ran.1 = some pipeline ∧
      let r := Report.toValue
        { configHash := "", module := .text "Gui", passes := pipeline.stats
          extra := [("parser_options", .null)] } ran.2.tree
      Report.CountsComments r entries Tree.sampleTree ran.2.tree ∧
      r.figure ["passes", "backfill_comments", "documented"] =
          ran.2.tree.originals.countP (fun y => y.label.comment.isGiven) ∧
        r.figure ["stats", "documented"] =
          r.figure ["passes", "backfill_comments", "documented"] +
            ran.2.tree.survey.countP ran.2.tree.isOfDocumented := by
  intro entries
  have completes : (runModule .sample (.mapping Config.defaults) (.addEntries {} entries) none false
      { tree := Tree.sampleTree }).2.fault = none :=
    Option.isNone_iff_eq_none.1 (by decide +kernel)
  have free : ∀ e ∈ [("parser_options", Value.null)], "passes" ≠ e.1 ∧ "stats" ≠ e.1 := by
    simp
  let report : Report :=
    { configHash := "", module := .text "Gui", extra := [("parser_options", .null)] }
  have told : ∀ es, .mapping es ∈ entries → (Corpus.part es "text").isGiven = true →
      Corpus.told es ≠ "" := by
    intro es mem _
    obtain rfl := Value.mapping.inj (List.mem_singleton.1 mem)
    decide
  obtain ⟨pipeline, ran, counts, agree⟩ :=
    report_documents Tree.ofDocument_sampleDump rfl completes report free
  exact ⟨completes, pipeline, ran, counts, agree told⟩

/-- What documentation was attached to need not have a comment that is not empty: where the text of
a raw entry is two blanks, the comment is the empty text. -/
theorem not_attached_only_given :
    ¬ ∀ (source : String) (document : Value) (t : Tree), Tree.ofDocument source document = .ok t →
      ∀ (info : ModuleInfo) (config : Value) (entries : List Value)
        (request : Option InlinesRequest) (hasBuilder : Bool) (w : Work), w.tree = t →
        (runModule info config (.addEntries {} entries) request hasBuilder w).2.fault = none →
          ∀ (report : Report) (pipeline : Pipeline),
            (runModule info config (.addEntries {} entries) request hasBuilder w).1 =
              some pipeline →
            let done := (runModule info config (.addEntries {} entries) request hasBuilder w).2.tree
            let r := { report with passes := pipeline.stats }.toValue done
            r.figure ["passes", "backfill_comments", "documented"] =
                done.originals.countP (fun y => y.label.comment.isGiven) ∧
              r.figure ["stats", "documented"] =
                r.figure ["passes", "backfill_comments", "documented"] +
                  done.survey.countP done.isOfDocumented := by
  intro h
  let entries : List Value := [.mapping [("type", .text "Palette"), ("text", .text "  ")]]
  have equal := h "dump.yml" Tree.sampleDump Tree.sampleTree Tree.ofDocument_sampleDump .sample
    (.mapping Config.defaults) entries none false { tree := Tree.sampleTree } rfl
    (Option.isNone_iff_eq_none.1 (by decide +kernel)) { configHash := "", module := .text "Gui" }
  generalize hr : runModule .sample (.mapping Config.defaults) (.addEntries {} entries) none false
    { tree := Tree.sampleTree } = result at equal
  have given : result.2.tree.originals.countP (fun y => y.label.comment.isGiven) = 0 := by
    rw [← hr]
    decide +kernel
  have attached : result.1.map (fun p => Value.figure (Report.toValue
      { configHash := "", module := .text "Gui", passes := p.stats } result.2.tree)
        ["passes", "backfill_comments", "documented"]) = some 1 := by
    rw [← hr]
    decide +kernel
  obtain ⟨pipeline, hp, one⟩ := Option.map_eq_some_iff.1 attached
  have none := (equal pipeline hp).1
  rw [given] at none
  exact absurd (one.symm.trans none) Nat.one_ne_zero

end Bindery
