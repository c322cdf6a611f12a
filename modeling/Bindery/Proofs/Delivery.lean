import Bindery.Command.Prepare
import Bindery.Proofs.Filling
import Bindery.Proofs.Jobs
import Bindery.Proofs.Loaded

/-!
# What a preparation leaves on the disk

A preparation settles everything before it writes anything. So if it ends with a complaint, the files
are as they were: what can go wrong from then on is never complained of. A tool that fails is always
complained of. If it succeeds, the report is where the configuration says, and so is the tree unless
the preparation was a rehearsal; and if the library of inline functions is not built, a rehearsal
settles the same as the real thing and writes the same report. Main statement:
`prepareCommand_delivers`.
-/

namespace Bindery

/-! ## Settling -/

namespace Sources

/-- Reading a document is harmless. -/
theorem isHarmless_readDocument (path : WrittenPath) : (readDocument path).IsHarmless :=
  Job.isHarmless_disk.bind fun d => Job.isHarmless_ofExcept (d.read path)

/-- Loading the configuration is harmless. -/
theorem isHarmless_loadConfig (path : Option String) : (loadConfig path).IsHarmless := by
  rw [loadConfig]
  split
  · exact Job.isHarmless_ofExcept _
  · refine Job.isHarmless_disk.bind fun d => (Job.isHarmless_ofExcept _).bind fun found => ?_
    split
    · exact (isHarmless_readDocument _).bind fun user => Job.isHarmless_ofExcept _
    · exact Job.isHarmless_ofExcept _

/-- Loading the tree is harmless. -/
theorem isHarmless_loadTree (path : WrittenPath) : (loadTree path).IsHarmless := by
  rw [loadTree]
  refine Job.isHarmless_disk.bind fun d => (Job.isHarmless_ofExcept _).bind fun found => ?_
  split
  · exact Job.isHarmless_disk.bind fun d => (Job.isHarmless_ofExcept _).bind fun document =>
      Job.isHarmless_ofExcept _
  · exact fun b => .of_quiet rfl rfl rfl nofun

/-- Loading the documentation is harmless. -/
theorem isHarmless_loadCorpus (directory : Value) (module : String) :
    (loadCorpus directory module).IsHarmless := by
  rw [loadCorpus.eq_def]
  split
  · split
    · refine Job.isHarmless_disk.bind fun d => (Job.isHarmless_ofExcept _).bind fun found => ?_
      split
      · exact (isHarmless_readDocument _).bind fun document => Job.isHarmless_ofExcept _
      · exact (Job.isHarmless_warn _).bind fun _ => Job.isHarmless_pure _
    · exact Job.isHarmless_fail _
  · exact Job.isHarmless_pure _

end Sources

/-- Running the passes is harmless, however the tools end. -/
theorem isHarmless_runPrepared (info : ModuleInfo) (config : Value) (corpus : Corpus)
    (request : Option InlinesRequest) (hasBuilder : Bool) (tree : Tree) :
    (runPrepared info config corpus request hasBuilder tree).IsHarmless := by
  intro b
  have heeds := runModule_heeds info config corpus request hasBuilder tree b.outcomes
  rw [Job.ends_iff, EStateM.run, runPrepared.eq_def]
  generalize runModule info config corpus request hasBuilder { tree, outcomes := b.outcomes } =
    done at heeds
  obtain ⟨pipeline, w⟩ := done
  dsimp only at heeds ⊢
  cases hf : w.fault with
  | none =>
    exact ⟨rfl, nofun, w.commands, rfl, heeds.outcomes,
      (heeds.succeeded hf).mono fun _ _ => False.elim⟩
  | some fault =>
    refine ⟨rfl, fun h => Job.ofFault_ne_success fault (Option.some.inj h), w.commands, rfl,
      heeds.outcomes, heeds.told.mono fun command status told => ?_⟩
    obtain rfl : fault = command.failure status := Option.some.inj (hf.symm.trans told)
    rfl

namespace PrepareOptions

/-- Settling is harmless. -/
theorem isHarmless_settle (o : PrepareOptions) : o.settle.IsHarmless := by
  have settings : o.settings.IsHarmless :=
    (Sources.isHarmless_loadConfig o.config).bind fun config => Job.isHarmless_ofExcept _
  refine settings.bind fun config => ?_
  refine (Job.isHarmless_ofExcept _).bind fun info => ?_
  refine (Job.isHarmless_say _).bind fun _ => ?_
  refine (Job.isHarmless_operand o.dump).bind fun dump => ?_
  refine (Sources.isHarmless_loadTree dump).bind fun tree => ?_
  refine (Sources.isHarmless_loadCorpus _ _).bind fun corpus => ?_
  refine Job.isHarmless_disk.bind fun disk => ?_
  refine (Job.isHarmless_operand o.outDir).bind fun outDir => ?_
  refine (Job.isHarmless_ofExcept _).bind fun outDir => ?_
  refine (Job.isHarmless_makeDirectories outDir).bind fun _ => ?_
  refine (isHarmless_runPrepared _ _ _ _ _ _).bind fun ran => ?_
  exact Job.isHarmless_pure _

/-- If the library is not built, a rehearsal settles what is settled otherwise. -/
theorem settle_rehearse (o : PrepareOptions) (h : o.buildInlines = false) (dryRun : Bool) :
    { o with dryRun }.settle = o.settle := by
  obtain ⟨dump, outDir, config, overrides, docs, requestInlines, buildInlines, _⟩ := o
  obtain rfl : buildInlines = false := h
  rfl

end PrepareOptions

/-! ## Delivering -/

/-- Asking for a part that must be there comes to no fault that is reported. -/
theorem unreported_require (v : Value) (key : String) :
    Reads Fault.isUnreported true (v.require key) := by
  rw [Value.require.eq_def]
  split
  · split
    · exact rfl
    · exact Or.inl rfl
  · exact Or.inl rfl

namespace Prepared

variable (p : Prepared)

/-- Asking where the report goes comes to no fault that is reported. -/
theorem reads_reportPath : Reads Fault.isUnreported true p.reportPath := by
  refine (unreported_require p.config "output").followed fun output _ => ?_
  refine (unreported_require output "report_file").followed fun file _ => ?_
  split
  · exact rfl
  · exact Or.inl rfl

/-- Asking where the tree goes comes to no fault that is reported. -/
theorem reads_treePath : Reads Fault.isUnreported true p.treePath := by
  refine (unreported_require p.config "output").followed fun output _ => ?_
  refine (unreported_require output "tree_file").followed fun file _ => ?_
  split
  · exact (Template.reads_fill _ _ _).followed fun filled _ => rfl
  · exact Or.inl rfl

/-- The report stands on a disk, and nothing else that was not on another one. -/
structure HasReport (old new : Disk) (place : Place) : Prop where
  /-- The path of the report leads to the place. -/
  path : p.reportPath >>= new.place = .ok place
  /-- The file there is the only one that was written. -/
  files : new.files = Disk.putFile place (.document p.report) old.files
  /-- The report can be read there. -/
  read : p.reportPath >>= new.read = .ok p.report

/-- The report and the tree stand on a disk, and nothing else that was not on another one. -/
structure HasBoth (old new : Disk) (report tree : Place) : Prop where
  /-- The path of the report leads to its place. -/
  reportPath : p.reportPath >>= new.place = .ok report
  /-- The path of the tree leads to its place. -/
  treePath : p.treePath >>= new.place = .ok tree
  /-- First the report was written and then the tree, and no other file. -/
  files : new.files = Disk.putFile tree (.document p.tree.toDocument)
    (Disk.putFile report (.document p.report) old.files)
  /-- The tree can be read at its place. -/
  readTree : p.treePath >>= new.read = .ok p.tree.toDocument
  /-- The report can be read at its place, if that is not the place of the tree. -/
  readReport : report ≠ tree → p.reportPath >>= new.read = .ok p.report

/-- Delivering the report writes it where its path leads, or is stopped at a defect that nobody
foresaw. -/
theorem ends_deliverReport (b : Bench) : p.deliverReport.Ends b
    (fun path b' => p.reportPath = .ok path ∧ ∃ q, b.disk.Gains path (.document p.report) q b'.disk)
    fun ending _ => ∃ fault, ending = .crash fault := by
  have found := (Job.ends_ofExcept p.reads_reportPath b).mono fun _ _ h => h.1
  refine found.bind ?_
  rintro path b' ⟨named, rfl⟩
  refine ((Job.ends_write path _ b').mono fun _ _ h => h.1).bind fun _ b'' gains => ?_
  exact ⟨named, gains⟩

/-- Delivering the tree writes it where its path leads, once everything is kept and directories are
made, or is stopped at a defect that nobody foresaw, and then everything is kept. -/
theorem ends_deliverTree (b : Bench) : p.deliverTree.Ends b
    (fun path b' => p.treePath = .ok path ∧ ∃ q between, b.disk.Keeps between ∧
      between.files = b.disk.files ∧ between.Gains path (.document p.tree.toDocument) q b'.disk)
    fun ending b' => (∃ fault, ending = .crash fault) ∧ b.disk.Keeps b'.disk ∧
      b'.disk.files = b.disk.files := by
  have found := (Job.ends_ofExcept p.reads_treePath b).mono fun ending b' h =>
    (⟨h.1, h.2 ▸ .refl b.disk, h.2 ▸ rfl⟩ : (∃ fault, ending = .crash fault) ∧
      b.disk.Keeps b'.disk ∧ b'.disk.files = b.disk.files)
  refine found.bind ?_
  rintro path b' ⟨named, rfl⟩
  refine (Job.ends_makeDirectories path.parent b').bind ?_
  rintro _ made ⟨keeps, files⟩
  have written := (Job.ends_write path (.document p.tree.toDocument) made).mono fun ending b'' h =>
    (⟨h.1, h.2 ▸ keeps, h.2 ▸ files⟩ : (∃ fault, ending = .crash fault) ∧
      b'.disk.Keeps b''.disk ∧ b''.disk.files = b'.disk.files)
  refine written.bind ?_
  rintro _ b'' ⟨q, gains⟩
  exact ⟨named, q, made.disk, keeps, files, gains⟩

variable {p} {old new between : Disk} {path : WrittenPath} {place : Place}

/-- A report stands on a disk that has no other files but those of a disk with the same files. -/
theorem HasReport.since {older : Disk} (h : p.HasReport old new place)
    (same : old.files = older.files) : p.HasReport older new place :=
  { h with files := same ▸ h.files }

/-- A report and a tree stand on a disk that has no other files but those of a disk with the same
files. -/
theorem HasBoth.since {older : Disk} {place' : Place} (h : p.HasBoth old new place place')
    (same : old.files = older.files) : p.HasBoth older new place place' :=
  { h with files := same ▸ h.files }

/-- The report stands where it was written as long as everything is kept. -/
theorem hasReport_of_gains (named : p.reportPath = .ok path)
    (gains : old.Gains path (.document p.report) place between) (keeps : between.Keeps new)
    (files : new.files = between.files) : p.HasReport old new place where
  path := by
    rw [named]
    exact Disk.place_of_extends keeps.extended gains.place_after
  files := by rw [files, gains.eq]
  read := by
    rw [named]
    exact keeps.read gains.place_after gains.node

/-- The report and the tree stand where they were written one after the other. -/
theorem hasBoth_of_gains {between' : Disk} {path' : WrittenPath} {place' : Place}
    (named : p.reportPath = .ok path) (gains : old.Gains path (.document p.report) place between)
    (keeps : between.Keeps between') (files : between'.files = between.files)
    (named' : p.treePath = .ok path')
    (gains' : between'.Gains path' (.document p.tree.toDocument) place' new) :
    p.HasBoth old new place place' where
  reportPath := by
    rw [named]
    exact Disk.place_of_extends gains'.extended
      (Disk.place_of_extends keeps.extended gains.place_after)
  treePath := by
    rw [named']
    exact gains'.place_after
  files := by rw [gains'.eq, files, gains.eq]
  readTree := by
    rw [named']
    exact Disk.read_of_node gains'.place_after gains'.node
  readReport := by
    intro other
    have path := Disk.place_of_extends gains'.extended
      (Disk.place_of_extends keeps.extended gains.place_after)
    have node := (gains'.node_of_ne other).trans (keeps.node place _ gains.node)
    rw [named]
    exact Disk.read_of_node path node

variable (p)

/-- Delivers what is settled, the tree only if it is no rehearsal. -/
def deliver (dryRun : Bool) : Job Unit := do
  let report ← p.deliverReport
  if dryRun then
    Job.say ("Dry run complete. Report generated at " ++ report.render)
  else
    let tree ← p.deliverTree
    Job.say ("Wrote processed declaration tree to: " ++ tree.render)

/-- Delivering runs no tools. -/
theorem runsNothing_deliver (dryRun : Bool) : (p.deliver dryRun).RunsNothing := by
  have reported : p.deliverReport.RunsNothing :=
    (Job.runsNothing_ofExcept _).bind fun _ =>
      (Job.runsNothing_changeDisk _).bind fun _ _ => rfl
  refine reported.bind fun report => ?_
  cases dryRun with
  | true => exact fun _ => rfl
  | false =>
    have treed : p.deliverTree.RunsNothing :=
      (Job.runsNothing_ofExcept _).bind fun _ => (Job.runsNothing_makeDirectories _).bind fun _ =>
        (Job.runsNothing_changeDisk _).bind fun _ _ => rfl
    exact treed.bind fun _ _ => rfl

/-- A delivery is stopped before the report is written, or it writes the report and then, unless it
is a rehearsal, is stopped or writes the tree. What stops it is a defect that nobody foresaw. -/
theorem deliver_cases (b : Bench) :
    (∃ fault b', ∀ dryRun, (p.deliver dryRun).run b = .error (.crash fault) b') ∨
      ∃ report, (∃ b', (p.deliver true).run b = .ok () b' ∧ p.HasReport b.disk b'.disk report) ∧
        ((∃ fault b', (p.deliver false).run b = .error (.crash fault) b' ∧
            p.HasReport b.disk b'.disk report) ∨
          ∃ tree b', (p.deliver false).run b = .ok () b' ∧
            p.HasBoth b.disk b'.disk report tree) := by
  have reported := p.ends_deliverReport b
  rw [Job.ends_iff] at reported
  cases hr : p.deliverReport.run b with
  | error ending b' =>
    rw [hr] at reported
    obtain ⟨fault, rfl⟩ := reported
    refine Or.inl ⟨fault, b', fun dryRun => ?_⟩
    rw [deliver, Job.run_bind, hr]
  | ok path b' =>
    rw [hr] at reported
    obtain ⟨named, report, gains⟩ := reported
    have rest (dryRun : Bool) : (p.deliver dryRun).run b =
        (if dryRun then Job.say ("Dry run complete. Report generated at " ++ path.render)
          else do
            let tree ← p.deliverTree
            Job.say ("Wrote processed declaration tree to: " ++ tree.render)).run b' := by
      rw [deliver, Job.run_bind, hr]
    refine Or.inr ⟨report, ⟨_, rest true, hasReport_of_gains named gains (.refl b'.disk) rfl⟩, ?_⟩
    have treed := p.ends_deliverTree b'
    rw [Job.ends_iff] at treed
    cases ht : p.deliverTree.run b' with
    | error ending b'' =>
      rw [ht] at treed
      obtain ⟨⟨fault, rfl⟩, keeps, files⟩ := treed
      refine Or.inl ⟨fault, b'', ?_, hasReport_of_gains named gains keeps files⟩
      rw [rest, if_neg Bool.false_ne_true, Job.run_bind, ht]
    | ok path' b'' =>
      rw [ht] at treed
      obtain ⟨named', tree, between, keeps, files, gains'⟩ := treed
      have delivered : (p.deliver false).run b = (Job.say ("Wrote processed declaration tree to: " ++
          path'.render)).run b'' := by
        rw [rest, if_neg Bool.false_ne_true, Job.run_bind, ht]
      exact Or.inr ⟨tree, _, delivered, hasBoth_of_gains named gains keeps files named' gains'⟩

/-- A delivery that is not stopped before the report is written does not end with a complaint: it
leaves the report behind and, just if it is no rehearsal and succeeds, the tree. A rehearsal
succeeds. -/
theorem conclude_deliver (b : Bench) :
    (∃ fault b', ∀ dryRun, Job.conclude (p.deliver dryRun) b = (b', .crash fault)) ∨
      ∃ report, (Job.conclude (p.deliver true) b).2 = .success ∧ ∀ dryRun,
        let done := Job.conclude (p.deliver dryRun) b
        (∀ complaint, done.2 ≠ .exit 1 complaint) ∧
          (done.2 = .success → if dryRun then p.HasReport b.disk done.1.disk report
            else ∃ tree, p.HasBoth b.disk done.1.disk report tree) ∧
          (p.HasReport b.disk done.1.disk report ∨
            ∃ tree, p.HasBoth b.disk done.1.disk report tree) := by
  rcases p.deliver_cases b with ⟨fault, b', stopped⟩ | ⟨report, ⟨b', rehearsed, hasReport⟩, real⟩
  · exact Or.inl ⟨fault, b', fun dryRun => Job.conclude_of_error (stopped dryRun)⟩
  · have dry : Job.conclude (p.deliver true) b = (b', .success) := Job.conclude_of_ok rehearsed
    refine Or.inr ⟨report, by rw [dry], fun dryRun => ?_⟩
    cases dryRun with
    | true =>
      rw [dry]
      exact ⟨nofun, fun _ => hasReport, Or.inl hasReport⟩
    | false =>
      rcases real with ⟨fault, b'', stopped, hasReport⟩ | ⟨tree, b'', finished, hasBoth⟩
      · rw [Job.conclude_of_error stopped]
        exact ⟨nofun, nofun, Or.inl hasReport⟩
      · rw [Job.conclude_of_ok finished]
        exact ⟨nofun, fun _ => ⟨tree, hasBoth⟩, Or.inr ⟨tree, hasBoth⟩⟩

end Prepared

/-! ## The command -/

/-- A preparation settles and then delivers. -/
theorem conclude_prepare (o : PrepareOptions) (b : Bench) :
    Job.conclude (prepare o) b = match o.settle.run b with
      | .ok p b' => Job.conclude (p.deliver o.dryRun) b'
      | .error ending b' => (b', ending) := by
  have parts : prepare o = o.settle >>= fun p => p.deliver o.dryRun := rfl
  rw [parts, Job.conclude_bind]
  cases o.settle.run b <;> rfl

/-- Settling is stopped, or a module is settled; the bench is spared in either case. -/
theorem PrepareOptions.settle_cases (o : PrepareOptions) (b : Bench) :
    (∃ ending b', o.settle.run b = .error ending b' ∧ b.Spares b' (some ending)) ∨
      ∃ p b', o.settle.run b = .ok p b' ∧ b.Spares b' none := by
  have settled := o.isHarmless_settle b
  rw [Job.ends_iff] at settled
  cases hs : o.settle.run b with
  | error ending b' =>
    rw [hs] at settled
    exact Or.inl ⟨ending, b', rfl, settled⟩
  | ok p b' =>
    rw [hs] at settled
    exact Or.inr ⟨p, b', rfl, settled⟩

section Conclusion

variable {o : PrepareOptions} {b b' : Bench} {p : Prepared} {ending : Ending}

/-- A preparation whose settling is stopped ends there. -/
theorem conclude_prepare_of_error (h : o.settle.run b = .error ending b') :
    Job.conclude (prepare o) b = (b', ending) := by
  rw [conclude_prepare, h]

/-- A preparation that has settled a module ends as it is delivered. -/
theorem conclude_prepare_of_ok (h : o.settle.run b = .ok p b') :
    Job.conclude (prepare o) b = Job.conclude (p.deliver o.dryRun) b' := by
  rw [conclude_prepare, h]

end Conclusion

/-- A preparation that ends with a complaint leaves the files as they were. -/
theorem files_prepare (o : PrepareOptions) (b : Bench) {complaint : String}
    (h : (Job.conclude (prepare o) b).2 = .exit 1 complaint) :
    (Job.conclude (prepare o) b).1.disk.files = b.disk.files := by
  rcases o.settle_cases b with ⟨ending, b', stopped, spares⟩ | ⟨p, b', settled, -⟩
  · rw [conclude_prepare_of_error stopped]
    exact spares.files
  · rw [conclude_prepare_of_ok settled] at h
    rcases p.conclude_deliver b' with ⟨fault, b'', crashed⟩ | ⟨report, -, outcome⟩
    · rw [crashed] at h
      cases h
    · exact absurd h ((outcome o.dryRun).1 complaint)

/-- The end at a tool that failed is a complaint. -/
theorem ofFault_failure (command : Command) (status : Int) :
    Ending.ofFault (command.failure status) =
      .exit 1 ("Error: " ++ (command.failure status).message ++ "\n") := rfl

/-- A preparation ends with a complaint if one of the tools that it runs fails. -/
theorem heeds_prepare (o : PrepareOptions) (b : Bench) :
    ∃ ran, (Job.conclude (prepare o) b).1.commands = b.commands ++ ran ∧
      AreHeeded b.outcomes ran fun command status => (Job.conclude (prepare o) b).2 =
        .exit 1 ("Error: " ++ (command.failure status).message ++ "\n") := by
  rcases o.settle_cases b with ⟨ending, b', stopped, spares⟩ | ⟨p, b', settled, spares⟩
  · obtain ⟨ran, commands, -, heeded⟩ := spares.ran
    rw [conclude_prepare_of_error stopped]
    refine ⟨ran, commands, heeded.mono fun command status told => ?_⟩
    exact (Option.some.inj told).trans (ofFault_failure command status)
  · -- Settling went on to its end, so no tool has failed, and delivering runs none.
    obtain ⟨ran, commands, -, heeded⟩ := spares.ran
    rw [conclude_prepare_of_ok settled, (p.runsNothing_deliver o.dryRun).conclude]
    exact ⟨ran, commands, heeded.mono fun _ _ told => absurd told.symm (Option.some_ne_none _)⟩

/-- A preparation that succeeds leaves the report behind and, just if it is no rehearsal, the tree. -/
theorem prepare_delivers (o : PrepareOptions) (b : Bench)
    (h : (Job.conclude (prepare o) b).2 = .success) :
    ∃ p settled report, o.settle.run b = .ok p settled ∧
      if o.dryRun then p.HasReport b.disk (Job.conclude (prepare o) b).1.disk report
      else ∃ tree, p.HasBoth b.disk (Job.conclude (prepare o) b).1.disk report tree := by
  rcases o.settle_cases b with ⟨ending, b', stopped, spares⟩ | ⟨p, b', settled, spares⟩
  · rw [conclude_prepare_of_error stopped] at h
    exact absurd (congrArg some h) spares.ne_success
  · rw [conclude_prepare_of_ok settled] at h ⊢
    rcases p.conclude_deliver b' with ⟨fault, b'', crashed⟩ | ⟨report, -, outcome⟩
    · rw [crashed] at h
      cases h
    · have delivered := (outcome o.dryRun).2.1 h
      refine ⟨p, b', report, settled, ?_⟩
      split at delivered
      · next dryRun =>
        rw [if_pos dryRun]
        exact delivered.since spares.files
      · next dryRun =>
        rw [if_neg dryRun]
        exact delivered.imp fun _ => (·.since spares.files)

/-- Unless the library of inline functions is built, a rehearsal succeeds if the real preparation
does, and writes the report that is written otherwise. -/
theorem prepare_rehearsed (o : PrepareOptions) (b : Bench) (built : o.buildInlines = false) :
    let done := Job.conclude (prepare o) b
    let rehearsed := Job.conclude (prepare { o with dryRun := true }) b
    (done.2 = .success → rehearsed.2 = .success) ∧
      (rehearsed.2 = .success → ∃ (p : Prepared) (report : Place),
        p.HasReport b.disk rehearsed.1.disk report ∧
          (p.HasReport b.disk done.1.disk report ∨
            ∃ tree, p.HasBoth b.disk done.1.disk report tree)) := by
  have same := congrArg (EStateM.run · b) (o.settle_rehearse built true)
  rcases o.settle_cases b with ⟨ending, b', stopped, spares⟩ | ⟨p, b', settled, spares⟩
  · have failed : ending ≠ .success := fun h => spares.ne_success (congrArg some h)
    rw [conclude_prepare_of_error stopped, conclude_prepare_of_error (same.trans stopped)]
    exact ⟨fun h => absurd h failed, fun h => absurd h failed⟩
  · have rehearses : Job.conclude (prepare { o with dryRun := true }) b =
        Job.conclude (p.deliver true) b' := conclude_prepare_of_ok (same.trans settled)
    rw [conclude_prepare_of_ok settled, rehearses]
    rcases p.conclude_deliver b' with ⟨fault, b'', crashed⟩ | ⟨report, dry, outcome⟩
    · rw [crashed, crashed]
      exact ⟨id, fun h => by cases h⟩
    · have either := (outcome o.dryRun).2.2
      have reported := (outcome true).2.1 dry
      exact ⟨fun _ => dry, fun _ => ⟨p, report, reported.since spares.files,
        either.imp (·.since spares.files) (.imp fun _ => (·.since spares.files))⟩⟩

/-- A command whose arguments are understood prepares what they ask for. -/
theorem conclude_prepareCommand {given : List String} {arguments : Arguments}
    (understood : PrepareOptions.grammar.parse given = .ok arguments) (b : Bench) :
    Job.conclude (prepareCommand given) b =
      Job.conclude (prepare (.ofArguments arguments)) b := by
  have taken : (Job.arguments PrepareOptions.grammar given).run b = .ok arguments b := by
    rw [Job.arguments, understood]
    rfl
  rw [prepareCommand, Job.conclude_bind, taken]

/-- A preparation by the command line. If it ends with a complaint, the files are as they were; and
so it ends if one of the tools that it runs fails. If it succeeds, the report stands where the settled
configuration says and, just if it is no rehearsal, the tree does, and no other file has changed. And
unless the library of inline functions is built, a rehearsal writes the report that is written
otherwise. -/
theorem prepareCommand_delivers {given : List String} {arguments : Arguments}
    (understood : PrepareOptions.grammar.parse given = .ok arguments) (b : Bench) :
    let o := PrepareOptions.ofArguments arguments
    let done := Job.conclude (prepareCommand given) b
    (∀ complaint, done.2 = .exit 1 complaint → done.1.disk.files = b.disk.files) ∧
      (∃ ran, done.1.commands = b.commands ++ ran ∧
        AreHeeded b.outcomes ran fun command status =>
          done.2 = .exit 1 ("Error: " ++ (command.failure status).message ++ "\n")) ∧
      (done.2 = .success → ∃ p settled report, o.settle.run b = .ok p settled ∧
        if o.dryRun then p.HasReport b.disk done.1.disk report
        else ∃ tree, p.HasBoth b.disk done.1.disk report tree) ∧
      ∀ rehearsal arguments', PrepareOptions.grammar.parse rehearsal = .ok arguments' →
        PrepareOptions.ofArguments arguments' = { o with dryRun := true } →
        o.buildInlines = false →
        let rehearsed := Job.conclude (prepareCommand rehearsal) b
        (done.2 = .success → rehearsed.2 = .success) ∧
          (rehearsed.2 = .success → ∃ (p : Prepared) (report : Place),
            p.HasReport b.disk rehearsed.1.disk report ∧
              (p.HasReport b.disk done.1.disk report ∨
                ∃ tree, p.HasBoth b.disk done.1.disk report tree)) := by
  intro o done
  have prepares : done = Job.conclude (prepare o) b := conclude_prepareCommand understood b
  rw [prepares]
  refine ⟨fun _ => files_prepare o b, heeds_prepare o b, prepare_delivers o b, ?_⟩
  intro rehearsal arguments' understood' same built
  rw [conclude_prepareCommand understood', same]
  exact prepare_rehearsed o b built

/-- A bench with the dump of the sample in the working directory. -/
def Bench.sample : Bench where
  disk := {
    workingDirectory := ["work"]
    files := [(["work", "dump.yml"], .document Tree.sampleDump)] }

/-- A bench on which the second tool that is run fails. -/
def Bench.failing : Bench := { Bench.sample with outcomes := [.exited 0, .exited 2] }

/-- Without a library, the sample is complained of and nothing is written. With one, the report and
the tree are written, or the report alone in a rehearsal. And if the library of inline functions is to
be built and the second tool fails, that is complained of and nothing is written. -/
theorem prepareCommand_delivers_sample :
    let refused := Job.conclude (prepareCommand ["dump.yml", "out"]) .sample
    let done := Job.conclude (prepareCommand ["dump.yml", "out", "--library", "Qt5Gui"]) .sample
    let rehearsed :=
      Job.conclude (prepareCommand ["--dry-run", "dump.yml", "out", "--library", "Qt5Gui"]) .sample
    let stopped := Job.conclude
      (prepareCommand ["--build-inlines", "dump.yml", "out", "--library", "Qt5Gui"]) .failing
    (refused.2 = .exit 1 "Error: Configuration is missing 'module.library'\n" ∧
        refused.1.disk.files = Bench.sample.disk.files) ∧
      (done.2 = .success ∧ ∃ (p : Prepared) (report tree : Place),
        p.HasBoth Bench.sample.disk done.1.disk report tree) ∧
      (rehearsed.2 = .success ∧ ∃ (p : Prepared) (report : Place),
        p.HasReport Bench.sample.disk rehearsed.1.disk report) ∧
      stopped.1.commands = [⟨["qmake", "/work/out/QtGuiSharp-inlines.pro"], some "/work/out"⟩,
          ⟨["make"], some "/work/out"⟩] ∧
        stopped.2 = .exit 1 "Error: make failed with exit status 2\n" ∧
        stopped.1.disk.files = Bench.sample.disk.files := by
  let operands : Arguments := { values := [("out_dir", some "out"), ("tree", some "dump.yml")] }
  let arguments : Arguments := { values := ("--library", some "Qt5Gui") :: operands.values }
  have few : PrepareOptions.grammar.parse ["dump.yml", "out"] = .ok operands := rfl
  have more : PrepareOptions.grammar.parse ["dump.yml", "out", "--library", "Qt5Gui"] =
      .ok arguments := rfl
  have building :
      PrepareOptions.grammar.parse ["--build-inlines", "dump.yml", "out", "--library", "Qt5Gui"] =
        .ok { arguments with flags := ["--build-inlines"] } := rfl
  have complains : (Job.conclude (prepareCommand ["dump.yml", "out"]) .sample).2 =
      .exit 1 "Error: Configuration is missing 'module.library'\n" := by decide +kernel
  have succeeds :
      (Job.conclude (prepareCommand ["dump.yml", "out", "--library", "Qt5Gui"]) .sample).2 =
        .success := by decide +kernel
  have commands : (Job.conclude
      (prepareCommand ["--build-inlines", "dump.yml", "out", "--library", "Qt5Gui"])
        .failing).1.commands = [⟨["qmake", "/work/out/QtGuiSharp-inlines.pro"], some "/work/out"⟩,
          ⟨["make"], some "/work/out"⟩] := by decide +kernel
  obtain ⟨untouched, -⟩ := prepareCommand_delivers few .sample
  obtain ⟨-, -, delivered, rehearse⟩ := prepareCommand_delivers more .sample
  obtain ⟨untouched', ⟨ran, all, heeded⟩, -⟩ := prepareCommand_delivers building .failing
  obtain ⟨p, -, report, -, tree, hasBoth⟩ := delivered succeeds
  obtain ⟨goes, reported⟩ := rehearse ["--dry-run", "dump.yml", "out", "--library", "Qt5Gui"]
    { arguments with flags := ["--dry-run"] } rfl rfl rfl
  obtain ⟨p', report', hasReport, -⟩ := reported (goes succeeds)
  rw [commands] at all
  obtain rfl : [_, _] = ran := all
  have fails := heeded 1 ⟨["make"], some "/work/out"⟩ 2 rfl rfl
  exact ⟨⟨complains, untouched _ complains⟩, ⟨succeeds, p, report, tree, hasBoth⟩,
    ⟨goes succeeds, p', report', hasReport⟩, commands, fails, untouched' _ fails⟩

end Bindery
