import Bindery.Proofs.FinalTreatment
import Bindery.Proofs.Reading
import Bindery.Proofs.Stability
import Bindery.Proofs.Validation

/-!
# Runs that fail

A run fails in one of two ways. Either a check or the set-up fails; then nothing has been changed. Or
a pass stops on its way; then the tree may be half prepared, but such a fault is never one that is
reported to the user, because what the policy names was found beforehand and a tree at any stage is
ready for the passes of a run in their order. Main statement: `runModule_reported_untouched`.
-/

namespace Bindery

namespace Fault

/-- Whether a fault is anything but that a pass was to run too early. -/
def isNoRefusal : Fault → Bool
  | tooEarly _ _ _ => false
  | _ => true

end Fault

/-! ## Setting up a run -/

section SetUp

variable {t : Tree} {info : ModuleInfo} {config : Value} {corpus : Corpus}

/-- Asking for a part that must be there refuses no pass. -/
theorem reads_require (v : Value) (key : String) :
    Reads Fault.isNoRefusal true (v.require key) := by
  cases v with
  | mapping es =>
    rw [Value.require]
    split
    · exact rfl
    · exact Or.inl rfl
  | _ => exact Or.inl rfl

/-- Going through the elements of a value refuses no pass. -/
theorem reads_elements (v : Value) : Reads Fault.isNoRefusal true v.elements := by
  cases v <;> first | exact rfl | exact Or.inl rfl

/-- Reading a set refuses no pass. -/
theorem reads_members (v : Value) : Reads Fault.isNoRefusal true v.members := by
  rw [Value.members]
  refine (reads_elements v).followed fun elements _ => ?_
  split
  · exact rfl
  · exact Or.inl rfl

/-- Reading the kinds of declarations to be renamed refuses no pass. -/
theorem reads_ofNames (names : Value) :
    Reads Fault.isNoRefusal true (RenameTarget.ofNames names) := by
  rw [RenameTarget.ofNames]
  refine (reads_elements names).followed fun elements _ => ?_
  refine Reads.followed (Reads.mapM_of_sound fun name _ => ?_) fun found _ => rfl
  rw [RenameTarget.ofName]
  split
  · exact rfl
  · split
    · exact rfl
    · exact Or.inl rfl

/-- Reading the convention for names refuses no pass. -/
theorem reads_ofValue (v : Value) : Reads Fault.isNoRefusal true (CasePattern.ofValue v) := by
  rw [CasePattern.ofValue]
  split
  · exact Or.inl rfl
  · split
    · exact rfl
    · exact Or.inl rfl

/-- Reading the settings of a run refuses no pass. -/
theorem reads_ofConfig (config : Value) :
    Reads Fault.isNoRefusal true (RunSettings.ofConfig config) := by
  rw [RunSettings.ofConfig]
  refine (reads_require config "visibility").followed fun visibility _ => ?_
  refine (reads_require config "events").followed fun events _ => ?_
  refine (reads_require visibility "private_prefix").followed fun leading _ => ?_
  refine (reads_require visibility "private_suffix").followed fun trailing _ => ?_
  refine (reads_require config "rename").followed fun recasing _ => ?_
  refine (reads_require recasing "targets").followed fun names _ => ?_
  refine (reads_ofNames names).followed fun targets _ => ?_
  refine (reads_require recasing "pattern").followed fun pattern _ => ?_
  refine (reads_ofValue pattern).followed fun pattern _ => ?_
  refine (reads_require events "signal_sections").followed fun sections _ => ?_
  refine (reads_require events "signal_suffix").followed fun ending _ => ?_
  refine (reads_require events "collision_prefix").followed fun mark _ => ?_
  refine (reads_members sections).followed fun sections _ => ?_
  exact (reads_require events "event_base_class").followed fun base _ => rfl

/-- Reading the policy of a module refuses no pass. -/
theorem reads_forModule (module extra : Value) :
    Reads Fault.isNoRefusal true (Policy.forModule module extra) := by
  rw [Policy.forModule]
  split
  · exact Or.inl rfl
  · split
    · exact rfl
    · refine (reads_elements extra).followed fun added _ => ?_
      split
      · exact Or.inl rfl
      · exact rfl

/-- Needing a class refuses no pass. -/
theorem reads_requireClass (t : Tree) (step : String) (module name : Value) :
    Reads Fault.isNoRefusal true (t.requireClass step module name) := by
  rw [Tree.requireClass]
  split
  · split
    · exact rfl
    · exact Or.inl rfl
  · exact Or.inl rfl

/-- A row of checks refuses no pass if none of them does. -/
theorem reads_checkAll {α : Type} {check : α → Except Fault Unit}
    (h : ∀ a, Reads Fault.isNoRefusal true (check a)) (items : List α) :
    Reads Fault.isNoRefusal true (Policy.checkAll check items) := by
  induction items with
  | nil => exact rfl
  | cons a rest ih => exact (h a).followed fun _ _ => ih

/-- Checking an enumeration refuses no pass. -/
theorem reads_checkEnum (p : Policy) (t : Tree) (entry : Option ClassEnum) :
    Reads Fault.isNoRefusal true (p.checkEnum t entry) := by
  cases entry with
  | none => exact Or.inl rfl
  | some e =>
    refine (reads_requireClass t _ _ _).followed fun found _ => ?_
    split
    · exact Or.inl rfl
    · exact rfl

/-- Checking a policy refuses no pass. -/
theorem reads_validate (p : Policy) (t : Tree) : Reads Fault.isNoRefusal true (p.validate t) := by
  have classes : ∀ {α : Type} (name : α → Value) (items : List α), Reads Fault.isNoRefusal true
      (Policy.checkAll (fun a =>
        (t.requireClass Policy.validationStep p.module (name a)).map fun _ => ()) items) :=
    fun name items => reads_checkAll (fun a => (reads_requireClass t _ _ _).map _) items
  have method : ∀ (found : Located) (name : Value),
      Reads Fault.isNoRefusal true (p.checkMethod found name) := by
    intro found name
    rw [Policy.checkMethod]
    split
    · exact rfl
    · exact Or.inl rfl
  have rest := (classes id p.typedEnumClasses).followed fun _ _ =>
    (reads_checkAll (reads_checkEnum p t) p.publicEnums).followed fun _ _ =>
      classes OperatorRemoval.className p.ignoredOperators
  rw [Policy.validate]
  split
  · refine (reads_requireClass t _ _ _).followed fun found _ => ?_
    exact (reads_checkAll (method found) p.stringKeptMethods).followed fun _ _ => rest
  · exact rest

/-- Setting up a run refuses no pass. -/
theorem reads_prepareRun (t : Tree) (info : ModuleInfo) (config : Value) (corpus : Corpus)
    (request : Option InlinesRequest) (hasBuilder : Bool) :
    Reads Fault.isNoRefusal true (prepareRun t info config corpus request hasBuilder) := by
  have entry : Reads Fault.isNoRefusal true (config.entry "value_types") := by
    cases config with
    | mapping es => exact rfl
    | _ => exact Or.inl rfl
  have passes : ∀ policy : Policy,
      Reads Fault.isNoRefusal true (runPasses info config policy corpus) := by
    intro policy
    rw [runPasses_eq]
    exact (reads_ofConfig config).map _
  rw [prepareRun]
  refine entry.followed fun extra _ => ?_
  refine (reads_forModule _ extra).followed fun policy _ => ?_
  refine (reads_validate policy t).followed fun _ _ => ?_
  exact (passes policy).followed fun passes _ => rfl

end SetUp

/-! ## Passes that stop -/

/-- If reading something comes to no fault that is reported, its fault is none. -/
theorem Reads.isReported {α : Type} {e : Except Fault α} (h : Reads Fault.isUnreported true e)
    {fault : Fault} (hf : Fault.of? e = some fault) : fault.isReported = false := by
  cases e with
  | ok a => cases hf
  | error cause =>
    obtain rfl : cause = fault := Option.some.inj hf
    rcases h with h | ⟨rfl, -⟩
    · simpa [Fault.isUnreported] using h
    · rfl

namespace Work

/-- The work has not stopped with a fault that is reported. -/
def IsUnreported (w : Work) : Prop := ∀ fault, w.fault = some fault → fault.isReported = false

/-- Work that has not stopped has not stopped with such a fault. -/
theorem isUnreported_of_none {w : Work} (h : w.fault = none) : w.IsUnreported := by
  intro fault hf
  rw [h] at hf
  cases hf

/-- Work that stops where a walk stops over something nobody is told about. -/
theorem isUnreported_stopAt {w : Work} (hw : w.fault = none) {stop : Option Stop}
    (h : ∀ halt, stop = some halt → halt.fault.isReported = false) :
    (w.stopAt stop).IsUnreported := by
  cases stop with
  | none => exact isUnreported_of_none hw
  | some halt =>
    intro fault hf
    obtain rfl : halt.fault = fault := Option.some.inj hf
    exact h halt rfl

/-- Work that cannot do without something that nobody is told about if it is missing. -/
theorem isUnreported_require {α : Type} {w : Work} {found : Except Fault α} {next : α → Work → Work}
    (h : Reads Fault.isUnreported true found) (hn : ∀ a, (next a w).IsUnreported) :
    (w.require found next).IsUnreported := by
  cases found with
  | ok a => exact hn a
  | error cause =>
    intro fault hf
    obtain rfl : cause = fault := Option.some.inj hf
    exact h.isReported rfl

end Work

/-- A walk stops with the fault of something on its way. -/
theorem exists_of_first? {check : Located → Option Fault} {xs : List Located} {halt : Stop}
    (hs : Stop.first? check xs = some halt) : ∃ x ∈ xs, check x = some halt.fault := by
  obtain ⟨x, hx, hc⟩ := List.exists_of_findSome?_eq_some hs
  obtain ⟨fault, hf, rfl⟩ := Option.map_eq_some_iff.1 hc
  exact ⟨x, hx, hf⟩

/-- A walk that stops at what cannot be read stops over something nobody is told about. -/
theorem isReported_of_first? {check : Located → Option Fault} {xs : List Located} {halt : Stop}
    (h : ∀ x fault, check x = some fault → fault.isReported = false)
    (hs : Stop.first? check xs = some halt) : halt.fault.isReported = false := by
  obtain ⟨x, -, hx⟩ := exists_of_first? hs
  exact h x halt.fault hx

/-- Judging a name comes to a verdict or to a fault that nobody is told about. -/
theorem reads_judge (marks : PrivateMarks) (name : Value) :
    Reads Fault.isUnreported true (marks.judge name) := by
  have borne : ∀ (mark : Mark) (part : String) (bears : List Char → List Char → Bool),
      Reads Fault.isUnreported true (mark.isBorne part bears name) := by
    intro mark part bears
    rw [Mark.isBorne.eq_def]
    split <;> first | exact rfl | exact Or.inl rfl
  rw [PrivateMarks.judge]
  split
  · split
    · exact borne marks.trailing _ _
    · exact borne marks.leading _ _
  · exact rfl

/-- Recasing a name comes to a name or to a fault that nobody is told about. -/
theorem reads_convert (pattern : CasePattern) (name : Value) :
    Reads Fault.isUnreported true (pattern.convert name) := by
  rw [CasePattern.convert.eq_def]
  split
  · exact rfl
  · split
    · exact Or.inl rfl
    · exact rfl
  · exact Or.inl rfl
  · exact Or.inl rfl
  · split
    · exact Or.inl rfl
    · exact rfl

/-- Looking a declaration up comes to a result or to a fault that nobody is told about. -/
theorem reads_lookupAt (corpus : Corpus) (s : Site) (l : Label) :
    Reads Fault.isUnreported true (corpus.lookupAt s l) := by
  have find : ∀ owner signature : Value,
      Reads Fault.isUnreported true (corpus.find owner signature) := by
    intro owner signature
    rw [Corpus.find.eq_def]
    split
    · exact rfl
    · split
      · exact rfl
      · exact Or.inl rfl
    · split
      · exact Or.inl rfl
      · exact Or.inl rfl
  rw [Corpus.lookupAt]
  split
  · split
    · exact rfl
    · exact find _ _
  · exact Or.inl rfl

/-- Classifying units stops with the fault of a name that cannot be judged. -/
theorem exists_of_classifyUnits (root : WrittenPath) (marks : PrivateMarks) (ds : List Decl)
    {fault : Fault} : ∀ tally : Tally, (classifyUnits root marks ds tally).fault = some fault →
      ∃ d ∈ ds, ∃ x ∈ d.survey Site.top, Fault.of? (marks.judge x.label.name) = some fault := by
  induction ds with
  | nil => exact fun tally h => nomatch h
  | cons d ds ih =>
    intro tally h
    have later : ∀ {tally : Tally}, (classifyUnits root marks ds tally).fault = some fault →
        ∃ e ∈ d :: ds, ∃ x ∈ e.survey Site.top,
          Fault.of? (marks.judge x.label.name) = some fault := by
      intro tally h
      obtain ⟨e, he, hx⟩ := ih tally h
      exact ⟨e, List.mem_cons_of_mem _ he, hx⟩
    rw [classifyUnits] at h
    cases ho : Origin.ofPath root d.unitPath with
    | unresolved =>
      rw [ho] at h
      exact later h
    | foreign =>
      rw [ho] at h
      exact later h
    | native =>
      rw [ho] at h
      cases hp : d.pruningStop? marks with
      | none =>
        have hn : (d.prune marks).fault = none := by simp [Decl.prune, hp]
        simp only [hn] at h
        exact later h
      | some halt =>
        have hs : (d.prune marks).fault = some halt.fault := by simp [Decl.prune, hp]
        simp only [hs] at h
        obtain rfl : halt.fault = fault := Option.some.inj h
        obtain ⟨x, hx, hf⟩ := exists_of_first? hp
        split at hf
        · exact ⟨d, List.mem_cons_self, x, hx, hf⟩
        · cases hf

/-- Classifying units does not stop with a fault that is reported. -/
theorem classifyUnits_isReported (root : WrittenPath) (marks : PrivateMarks) (ds : List Decl)
    {fault : Fault} (tally : Tally) (h : (classifyUnits root marks ds tally).fault = some fault) :
    fault.isReported = false := by
  obtain ⟨_, -, x, -, hf⟩ := exists_of_classifyUnits root marks ds tally h
  exact (reads_judge marks x.label.name).isReported hf

namespace EventRule

/-- A rule under which attaching does not stop with a fault that is reported. -/
structure IsUnreported (rule : EventRule) : Prop where
  /-- Nobody is told why a method cannot be recognised. -/
  qualifies : ∀ l, Reads Fault.isUnreported true (rule.qualifies l)
  /-- Nobody is told why an event cannot be named. -/
  wantedName : ∀ l, Reads Fault.isUnreported true (rule.wantedName l)

variable {rule : EventRule} {site : Site} {label : Label} {fault : Fault}

/-- Offering a method does not stop with a fault that is reported. -/
theorem IsUnreported.offer (h : rule.IsUnreported) (i : Nat) (method : Label) {r : Roster}
    (hr : ∀ fault, r.fault = some fault → fault.isReported = false)
    (hf : (rule.offer site label i method r).fault = some fault) : fault.isReported = false := by
  have offered := rule.offered site label i method r
  generalize rule.offer site label i method r = r' at offered hf
  cases offered with
  | stopped why stopped members attached =>
    obtain rfl := Option.some.inj (stopped.symm.trans hf)
    cases why with
    | earlier he => exact hr _ he
    | unjudged generated hq => exact (h.qualifies method).isReported (by rw [hq]; rfl)
    | uncalled hw => exact (h.wantedName method).isReported (by rw [hw]; rfl)
    | unnamed => rfl
  | spared running due judged => exact hr fault hf
  | kept running due qualifies adapted => exact hr fault hf
  | taken running due qualifies fresh wantedName members attached existing none =>
    rw [none] at hf
    cases hf

/-- Offering methods does not stop with a fault that is reported. -/
theorem IsUnreported.offerAll (h : rule.IsUnreported) (methods : List Decl) :
    ∀ (i : Nat) (r : Roster), (∀ fault, r.fault = some fault → fault.isReported = false) →
      (rule.offerAll site label i methods r).fault = some fault → fault.isReported = false := by
  induction methods with
  | nil => exact fun i r hr hf => hr fault hf
  | cons m methods ih =>
    intro i r hr hf
    exact ih (i + 1) _ (fun cause hc => h.offer i m.label hr hc) hf

/-- Signals are recognised and named without a fault that is reported. -/
theorem isUnreported_signals (o : SignalOptions) : o.rule.IsUnreported := by
  refine ⟨fun l => ?_, fun l => rfl⟩
  change Reads Fault.isUnreported true (o.qualifies l)
  rw [SignalOptions.qualifies]
  split
  · refine Reads.followed ?_ fun inSection _ => rfl
    rw [Value.isMember]
    split
    · exact rfl
    · exact Or.inl rfl
  · exact Or.inl rfl

/-- Hooks are recognised and named without a fault that is reported. -/
theorem isUnreported_hooks (o : HookOptions) (index : BaseIndex) :
    (o.rule index).IsUnreported := by
  refine ⟨fun l => ?_, fun l => ?_⟩
  · change Reads Fault.isUnreported true (o.qualifies index l)
    rw [HookOptions.qualifies]
    split
    · exact rfl
    · exact Or.inl rfl
  · change Reads Fault.isUnreported true (withoutEnding l.name)
    rw [withoutEnding.eq_def]
    split
    · exact rfl
    · exact rfl
    · exact Or.inl rfl

end EventRule

/-- Attaching events does not stop with a fault that is reported. -/
theorem attachEvents_isUnreported {rule : EventRule} (h : rule.IsUnreported) {w : Work}
    (hw : w.fault = none) : (attachEvents rule w).IsUnreported := by
  rw [attachEvents]
  refine Work.isUnreported_stopAt (by exact hw) fun halt hs => ?_
  obtain ⟨⟨x, r⟩, hx, hr⟩ := List.exists_of_findSome?_eq_some hs
  obtain ⟨fault, hf, rfl⟩ := Option.map_eq_some_iff.1 hr
  obtain ⟨y, -, hy⟩ := List.mem_map.1 (mem_of_mem_upToFirst hx)
  obtain ⟨rfl, rfl⟩ := Prod.mk.inj hy
  exact h.offerAll y.decl.methods 0 { members := y.decl.members }
    (fun cause hn => absurd hn.symm (Option.some_ne_none cause)) hf

/-- Whether a pass stops only with faults that nobody is told about: all but the policy's and the
request for a library that is then built. -/
def Pass.isDiscreet : Pass → Bool
  | .normalize _ => false
  | .requestInlines _ hasBuilder => !hasBuilder
  | _ => true

/-- The faults of a discreet pass are not reported. -/
theorem Pass.work_isUnreported {pass : Pass} (h : pass.isDiscreet = true) {w : Work}
    (hw : w.fault = none) : (pass.work w).IsUnreported := by
  cases pass with
  | origin root marks => exact fun fault hf => classifyUnits_isReported root marks _ _ hf
  | normalize policy => cases h
  | resolve => exact Work.isUnreported_of_none hw
  | clearComments => exact Work.isUnreported_of_none hw
  | backfillComments corpus =>
    rw [work, Bindery.backfillComments]
    exact Work.isUnreported_stopAt (by exact hw) fun halt hs =>
      isReported_of_first? (fun x fault => (reads_lookupAt corpus x.site x.label).isReported) hs
  | rename targets pattern =>
    rw [work, Bindery.rename]
    exact Work.isUnreported_stopAt (by exact hw) fun halt hs =>
      isReported_of_first? (fun x fault => (reads_convert pattern x.label.name).isReported) hs
  | signalEvents options =>
    exact attachEvents_isUnreported (EventRule.isUnreported_signals options) hw
  | hookEvents options =>
    refine Work.isUnreported_require ?_ fun index =>
      attachEvents_isUnreported (EventRule.isUnreported_hooks options index) hw
    rw [Tree.bases]
    split
    · exact rfl
    · exact Or.inl rfl
  | requestInlines request hasBuilder =>
    obtain rfl : hasBuilder = false := by simpa [isDiscreet] using h
    refine Work.isUnreported_require ?_ fun path => Work.isUnreported_of_none hw
    refine Reads.map ?_ _
    rw [InlinesRequest.directory.eq_def]
    split
    · exact rfl
    · exact Or.inl rfl
  | undefined =>
    intro fault hf
    obtain rfl : Fault.undefinedStep = fault := Option.some.inj hf
    rfl
  | undefinedEvents =>
    have rule : undefinedRule.IsUnreported := ⟨fun l => Or.inl rfl, fun l => rfl⟩
    exact attachEvents_isUnreported rule hw

/-! ## Runs -/

namespace Pipeline

/-- If the tree is ready for the first pass, a pipeline stops with a reported fault only if this pass
or the others after it do. -/
theorem run_cons_isUnreported {s : Station} {rest : Pipeline} {w : Work}
    (ready : s.pass.needs ≤ w.tree.stage) (first : (s.runDirectly w).2.IsUnreported)
    (others : (s.runDirectly w).2.fault = none → (rest.run (afterFirst s w)).2.IsUnreported) :
    (run (s :: rest) w).2.IsUnreported := by
  cases hf : (s.runDirectly w).2.fault with
  | none =>
    rw [run_cons_of_ready ready hf]
    exact others hf
  | some fault =>
    have hr : (run (s :: rest) w).2 = (s.runDirectly w).2 := by
      have late : ¬ w.tree.stage < s.pass.needs := Nat.not_lt_of_le ready
      rw [run, if_neg late]
      dsimp only
      rw [hf]
    rw [hr]
    exact first

/-- Discreet passes for which the tree is ready do not stop with a fault that is reported. -/
theorem run_isUnreported (p : Pipeline) (discreet : ∀ pass ∈ p.passes, pass.isDiscreet = true) :
    ∀ w : Work, w.fault = none → Pass.AreReady p.passes w.tree.stage →
      (p.run w).2.IsUnreported := by
  induction p with
  | nil => exact fun w hw _ => Work.isUnreported_of_none hw
  | cons s rest ih =>
    intro w hw ready
    refine run_cons_isUnreported ready.1 ?_ fun hf => ?_
    · exact Pass.work_isUnreported (discreet s.pass List.mem_cons_self) hw
    · refine ih (fun pass hp => discreet pass (List.mem_cons_of_mem _ hp)) _ hf ?_
      rw [stage_afterFirst]
      exact ready.2

end Pipeline

/-- A tree that is further on is ready for what it was ready for before. -/
theorem Pass.AreReady.mono {passes : List Pass} : ∀ {a b : Stage}, AreReady passes a → a ≤ b →
    AreReady passes b := by
  induction passes with
  | nil => exact fun _ _ => trivial
  | cons pass passes ih =>
    intro a b h hab
    refine ⟨Stage.le_trans h.1 hab, ih h.2 ?_⟩
    have hr : a.rank ≤ b.rank := hab
    change (a.later pass.leadsTo).rank ≤ (b.later pass.leadsTo).rank
    rw [Stage.rank_later, Stage.rank_later]
    omega

section Run

variable (settings : RunSettings) (root : WrittenPath) (policy : Policy) (corpus : Corpus)
variable (request : Option InlinesRequest) (hasBuilder : Bool) (stage : Stage)

/-- A tree at any stage is ready for the passes of a run. -/
theorem areReady_runPasses : Pass.AreReady (settings.taggingPasses root policy ++
    settings.laterPasses corpus ++ lastPasses request hasBuilder) stage := by
  have parsed : Pass.AreReady (settings.taggingPasses root policy ++ settings.laterPasses corpus ++
      lastPasses request hasBuilder) .parsed := by
    have le {a b : Stage} (h : a.rank.ble b.rank = true) : a ≤ b := Nat.le_of_ble_eq_true h
    cases request with
    | none =>
      exact ⟨le rfl, le rfl, le rfl, le rfl, le rfl, le rfl, le rfl, le rfl, trivial⟩
    | some request =>
      exact ⟨le rfl, le rfl, le rfl, le rfl, le rfl, le rfl, le rfl, le rfl, le rfl, trivial⟩
  exact parsed.mono (Nat.zero_le stage.rank)

/-- The passes of a run lead a tree at any stage to the end of the synthesis of events at least, and
to the request for inline functions if there is one. -/
theorem stageAfter_runPasses : Pass.stageAfter (settings.taggingPasses root policy ++
    settings.laterPasses corpus ++ lastPasses request hasBuilder) stage =
      if request.isSome then .inlines else stage.later .events := by
  cases request <;> cases stage <;> rfl

end Run

/-- A run whose policy can be applied to the tree does not stop on its way with a fault that is
reported, unless a builder is at hand. -/
theorem run_runPasses_isUnreported (settings : RunSettings) (root : WrittenPath) (policy : Policy)
    (corpus : Corpus) (request : Option InlinesRequest) {w : Work} (hs : w.tree.IsShaped)
    (applicable : policy.IsApplicable w.tree) :
    ((Pipeline.ofPasses (settings.taggingPasses root policy ++ settings.laterPasses corpus ++
      lastPasses request false)).run w).2.IsUnreported := by
  have ready := areReady_runPasses settings root policy corpus request false w.tree.stage
  refine Pipeline.run_cons_isUnreported ready.1 ?_ fun classified => ?_
  · exact fun fault hf => classifyUnits_isReported root settings.marks _ _ hf
  have turned := ((classify_turned root settings.marks
    { w with tally := ({} : Tally) }).stands classified).2
  generalize hw : Pipeline.afterFirst { pass := .origin root settings.marks } w = w'
  have hf : w'.fault = none := by
    rw [← hw]
    exact classified
  have tree : w'.tree = { w.tree.classified root settings.marks with stage := w'.tree.stage } := by
    rw [← hw]
    exact congrArg (Tree.mk _) (congrArg Tree.units turned.tree)
  -- Classification has linked and pruned, but every lookup comes to what it came to before.
  have found : policy.IsApplicable w'.tree := by
    rw [tree, Policy.isApplicable_atStage]
    exact Tree.isApplicable_classified hs applicable root settings.marks
  have shaped : w'.tree.IsShaped := by
    rw [tree]
    exact (hs.classified root settings.marks).atStage _
  have stage : w'.tree.stage = w.tree.stage.later .classified := by
    rw [← hw]
    exact Pipeline.stage_afterFirst _ w
  have ready := ready.2
  rw [show Pass.leadsTo (.origin root settings.marks) = .classified from rfl, ← stage] at ready
  have applied : (policy.apply { w' with tally := ({} : Tally) }).fault = none :=
    ((Policy.apply_turned policy (w := { w' with tally := {} }) shaped hf).done found).fault
  refine Pipeline.run_cons_isUnreported ready.1 (Work.isUnreported_of_none applied) fun hn => ?_
  -- The other passes are discreet.
  change (Pipeline.run (.ofPasses (.resolve :: (settings.laterPasses corpus ++
    lastPasses request false))) _).2.IsUnreported
  refine Pipeline.run_isUnreported _ ?_ _ hn ?_
  · rw [Pipeline.passes_ofPasses]
    cases request with
    | none => simp [RunSettings.laterPasses, lastPasses, Pass.isDiscreet]
    | some request => simp [RunSettings.laterPasses, lastPasses, Pass.isDiscreet]
  · rw [Pipeline.passes_ofPasses, Pipeline.stage_afterFirst]
    exact ready.2

/-- What a run on a loaded tree at any stage comes to, if no builder is at hand. If it stops with a
fault that is reported, the tree is as it was before; no pass is refused; and if it comes to an end,
the tree has its events, or the library of inline functions is requested if it was to be. -/
theorem runModule_reported_untouched {source : String} {document : Value} {t : Tree}
    (loaded : Tree.ofDocument source document = .ok t) (stage : Stage) (info : ModuleInfo)
    (config : Value) (corpus : Corpus) (request : Option InlinesRequest) {w : Work}
    (tree : w.tree = { t with stage }) :
    let done := (runModule info config corpus request false w).2
    (∀ fault, done.fault = some fault → fault.isReported = true → done.tree = w.tree) ∧
      (∀ pass needed current, done.fault ≠ some (.tooEarly pass needed current)) ∧
      (done.fault = none →
        done.tree.stage = if request.isSome then .inlines else stage.later .events) := by
  rw [runModule]
  cases hp : prepareRun w.tree info config corpus request false with
  | error cause =>
    refine ⟨fun _ _ _ => rfl, fun pass needed current hf => ?_,
      fun hn => absurd hn (Option.some_ne_none cause)⟩
    obtain rfl : cause = .tooEarly pass needed current := Option.some.inj hf
    have hr := reads_prepareRun w.tree info config corpus request false
    rw [hp] at hr
    rcases hr with hr | ⟨hr, -⟩ <;> cases hr
  | ok pipeline =>
    obtain ⟨policy, settings, hpol, valid, -, rfl⟩ := exists_of_prepareRun_eq_ok hp
    obtain ⟨extra, -, hpol⟩ := exists_of_bind_eq_ok hpol
    have hl := Tree.isLoaded_ofDocument loaded
    have shaped : w.tree.IsShaped := by
      rw [tree]
      exact hl.isShaped.atStage stage
    have applicable : policy.IsApplicable w.tree := by
      rw [tree] at valid ⊢
      rw [Policy.isApplicable_atStage]
      exact Policy.isApplicable_of_validate (Policy.isWorded_forModule hpol) hl valid
    have unreported := run_runPasses_isUnreported settings info.root policy corpus request shaped
      applicable
    refine ⟨fun fault hf hr => ?_, fun pass needed current hf => ?_, fun hn => ?_⟩
    · rw [unreported fault hf] at hr
      cases hr
    · have hr := unreported _ hf
      cases hr
    · have hs := (Pipeline.areReady_of_completes _ hn).2
      rw [Pipeline.passes_ofPasses, stageAfter_runPasses, tree] at hs
      exact hs

/-- For the module `Core` the sample lacks the string class, and its tree stays as it is; for the
module `Gui` it is prepared. -/
theorem runModule_reported_untouched_sample :
    let failed := (runModule { ModuleInfo.sample with module := "Core" } (.mapping Config.defaults)
      {} none false { tree := { Tree.sampleTree with stage := .renamed } }).2
    let completed := (runModule .sample (.mapping Config.defaults) {} none false
      { tree := { Tree.sampleTree with stage := .renamed } }).2
    failed.fault = some (.missingDeclaration "policy validation" (.text "Core") "QString") ∧
      failed.tree = { Tree.sampleTree with stage := .renamed } ∧
      completed.fault = none ∧ completed.tree.stage = .events := by
  have fails : (runModule { ModuleInfo.sample with module := "Core" } (.mapping Config.defaults)
      {} none false { tree := { Tree.sampleTree with stage := .renamed } }).2.fault =
        some (.missingDeclaration "policy validation" (.text "Core") "QString") := by
    decide +kernel
  have completes : (runModule .sample (.mapping Config.defaults) {} none false
      { tree := { Tree.sampleTree with stage := .renamed } }).2.fault = none :=
    Option.isNone_iff_eq_none.1 (by decide +kernel)
  obtain ⟨untouched, -, -⟩ := runModule_reported_untouched Tree.ofDocument_sampleDump .renamed
    { ModuleInfo.sample with module := "Core" } (.mapping Config.defaults) {} none
    (w := { tree := { Tree.sampleTree with stage := .renamed } }) rfl
  obtain ⟨-, -, stage⟩ := runModule_reported_untouched Tree.ofDocument_sampleDump .renamed
    .sample (.mapping Config.defaults) {} none
    (w := { tree := { Tree.sampleTree with stage := .renamed } }) rfl
  exact ⟨fails, untouched _ fails rfl, completes, stage completes⟩

end Bindery
