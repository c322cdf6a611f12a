import Bindery.Command.Job
import Bindery.Proofs.Storage
import Bindery.Proofs.Tools

/-!
# How jobs end

A job ends when it is done or where something stops it, and either way leaves its bench behind. Jobs
that only find things out leave the files alone and are stopped by a tool that fails; jobs that write
are stopped by nothing but defects that nobody foresaw. Main statements: `Job.IsHarmless.bind`,
`Job.RunsNothing.bind`, `Job.ends_write`.
-/

namespace Bindery

/-! ## Ways to end -/

namespace Job

variable {α β : Type}

/-- How a job ends: it is done with something, or is stopped, and leaves its bench behind. -/
def Ends (job : Job α) (b : Bench) (done : α → Bench → Prop) (stopped : Ending → Bench → Prop) :
    Prop :=
  match job.run b with
  | .ok a b' => done a b'
  | .error ending b' => stopped ending b'

/-- How a job ends is told by its run. -/
theorem ends_iff {job : Job α} {b : Bench} {done : α → Bench → Prop}
    {stopped : Ending → Bench → Prop} : job.Ends b done stopped ↔ match job.run b with
      | .ok a b' => done a b'
      | .error ending b' => stopped ending b' := Iff.rfl

/-- One job after the other is done as the second is, unless the first is stopped. -/
theorem run_bind (first : Job α) (next : α → Job β) (b : Bench) :
    (first >>= next).run b = match first.run b with
      | .ok a b' => (next a).run b'
      | .error ending b' => .error ending b' := by
  change EStateM.bind first next b = match first b with
    | .ok a b' => next a b'
    | .error ending b' => .error ending b'
  rw [EStateM.bind]
  cases first b <;> rfl

/-- One job after the other ends as the second does if the first is done, and as the first if not. -/
theorem Ends.bind {first : Job α} {next : α → Job β} {b : Bench} {middle : α → Bench → Prop}
    {done : β → Bench → Prop} {stopped : Ending → Bench → Prop} (h : first.Ends b middle stopped)
    (hn : ∀ a b', middle a b' → (next a).Ends b' done stopped) :
    (first >>= next).Ends b done stopped := by
  rw [ends_iff] at h ⊢
  rw [run_bind]
  cases hf : first.run b with
  | ok a b' =>
    rw [hf] at h
    exact hn a b' h
  | error ending b' =>
    rw [hf] at h
    exact h

/-- A job that ends in one way ends in every way that follows from it. -/
theorem Ends.imp {job : Job α} {b : Bench} {done done' : α → Bench → Prop}
    {stopped stopped' : Ending → Bench → Prop} (h : job.Ends b done stopped)
    (hd : ∀ a b', done a b' → done' a b')
    (hs : ∀ ending b', stopped ending b' → stopped' ending b') : job.Ends b done' stopped' := by
  rw [ends_iff] at h ⊢
  cases hj : job.run b with
  | ok a b' =>
    rw [hj] at h
    exact hd a b' h
  | error ending b' =>
    rw [hj] at h
    exact hs ending b' h

/-- A job that is stopped in one way is stopped in every way that follows from it. -/
theorem Ends.mono {job : Job α} {b : Bench} {done : α → Bench → Prop}
    {stopped stopped' : Ending → Bench → Prop} (h : job.Ends b done stopped)
    (hs : ∀ ending b', stopped ending b' → stopped' ending b') : job.Ends b done stopped' :=
  h.imp (fun _ _ => id) hs

/-- A job that is done is concluded with success. -/
theorem conclude_of_ok {job : Job Unit} {b b' : Bench} (h : job.run b = .ok () b') :
    job.conclude b = (b', .success) := by
  rw [conclude, h]

/-- A job that is stopped is concluded with that end. -/
theorem conclude_of_error {job : Job Unit} {b b' : Bench} {ending : Ending}
    (h : job.run b = .error ending b') : job.conclude b = (b', ending) := by
  rw [conclude, h]

/-- One job after the other is concluded as the second is, unless the first is stopped. -/
theorem conclude_bind (first : Job α) (next : α → Job Unit) (b : Bench) :
    (first >>= next).conclude b = match first.run b with
      | .ok a b' => (next a).conclude b'
      | .error ending b' => (b', ending) := by
  rw [conclude, run_bind]
  cases first.run b <;> rfl

/-- The end at a fault is no success. -/
theorem ofFault_ne_success (fault : Fault) : Ending.ofFault fault ≠ .success := by
  rw [Ending.ofFault]
  split <;> simp [Ending.success]

end Job

/-! ## Sparing the bench -/

/-- What becomes of a bench by a job that only finds things out, where `stopped` is how the job was
stopped, if it was: the files are left alone, and a tool that fails stops the job with its fault. -/
structure Bench.Spares (b b' : Bench) (stopped : Option Ending) : Prop where
  /-- The files are as they were. -/
  files : b'.disk.files = b.disk.files
  /-- The job does not end early with success. -/
  ne_success : stopped ≠ some .success
  /-- Every tool took the next of the outcomes to come, and one that failed stopped the job. -/
  ran : ∃ ran, b'.commands = b.commands ++ ran ∧ b'.outcomes = b.outcomes.drop ran.length ∧
    AreHeeded b.outcomes ran fun command status =>
      stopped = some (.ofFault (command.failure status))

namespace Bench.Spares

variable {b b' b'' : Bench} {stopped : Option Ending}

/-- A bench with the same files on which nothing was run is spared. -/
theorem of_quiet (files : b'.disk.files = b.disk.files) (commands : b'.commands = b.commands)
    (outcomes : b'.outcomes = b.outcomes) (ne_success : stopped ≠ some .success) :
    b.Spares b' stopped where
  files := files
  ne_success := ne_success
  ran := ⟨[], commands.trans (List.append_nil _).symm, outcomes, .nil _ _⟩

/-- A bench with the same files on which nothing was run is spared if the job goes on. -/
theorem of_running (files : b'.disk.files = b.disk.files) (commands : b'.commands = b.commands)
    (outcomes : b'.outcomes = b.outcomes) : b.Spares b' none :=
  of_quiet files commands outcomes (Option.some_ne_none _).symm

/-- A bench with the same files on which nothing was run is spared if a fault stops the job. -/
theorem of_fault (fault : Fault) (files : b'.disk.files = b.disk.files)
    (commands : b'.commands = b.commands) (outcomes : b'.outcomes = b.outcomes) :
    b.Spares b' (some (.ofFault fault)) :=
  of_quiet files commands outcomes fun h => Job.ofFault_ne_success fault (Option.some.inj h)

/-- Nothing becomes of a bench by itself. -/
theorem refl (b : Bench) : b.Spares b none := of_running rfl rfl rfl

/-- What is done on a bench that was spared and not stopped at spares the first bench too. -/
theorem trans (h : b.Spares b' none) (h' : b'.Spares b'' stopped) : b.Spares b'' stopped where
  files := h'.files.trans h.files
  ne_success := h'.ne_success
  ran := by
    obtain ⟨ran, commands, outcomes, heeded⟩ := h.ran
    obtain ⟨ran', commands', outcomes', heeded'⟩ := h'.ran
    have succeeded : AreHeeded b.outcomes ran fun _ _ => False :=
      heeded.mono fun _ _ told => Option.some_ne_none _ told.symm
    refine ⟨ran ++ ran', ?_, ?_, succeeded.append (outcomes ▸ heeded')⟩
    · rw [commands', commands, List.append_assoc]
    · rw [outcomes', outcomes, List.drop_drop, List.length_append]

end Bench.Spares

namespace Job

variable {α β : Type}

/-- A job spares its bench, however it ends. -/
def IsHarmless (job : Job α) : Prop :=
  ∀ b, job.Ends b (fun _ b' => b.Spares b' none) fun ending b' => b.Spares b' (some ending)

/-- Harmless jobs may be done one after the other. -/
theorem IsHarmless.bind {first : Job α} {next : α → Job β} (h : first.IsHarmless)
    (hn : ∀ a, (next a).IsHarmless) : (first >>= next).IsHarmless :=
  fun b => Ends.bind (h b) fun a b' spares =>
    (hn a b').imp (fun _ _ => spares.trans) fun _ _ => spares.trans

/-- Having something is harmless. -/
theorem isHarmless_pure (a : α) : (pure a : Job α).IsHarmless := .refl

/-- Stopping at a fault is harmless. -/
theorem isHarmless_fail (fault : Fault) : (fail fault : Job α).IsHarmless :=
  fun _ => .of_fault fault rfl rfl rfl

/-- Going on with what was found is harmless. -/
theorem isHarmless_ofExcept (found : Except Fault α) : (ofExcept found).IsHarmless := by
  cases found with
  | ok a => exact isHarmless_pure a
  | error fault => exact isHarmless_fail fault

/-- Printing is harmless. -/
theorem isHarmless_say (line : String) : (say line).IsHarmless :=
  fun _ => .of_running rfl rfl rfl

/-- Warning is harmless. -/
theorem isHarmless_warn (warning : String) : (warn warning).IsHarmless :=
  fun _ => .of_running rfl rfl rfl

/-- Looking at the disk is harmless. -/
theorem isHarmless_disk : disk.IsHarmless := .refl

/-- Needing an operand is harmless. -/
theorem isHarmless_operand (place : Option α) : (operand place).IsHarmless := by
  cases place with
  | some a => exact isHarmless_pure a
  | none => exact isHarmless_fail _

/-- How making directories ends is a matter of the disk. -/
theorem run_makeDirectories (path : WrittenPath) (b : Bench) :
    (makeDirectories path).run b =
      match (b.disk.makeDirectories path).2 with
      | some fault => .error (.ofFault fault) { b with disk := (b.disk.makeDirectories path).1 }
      | none => .ok () { b with disk := (b.disk.makeDirectories path).1 } := by
  have looked : disk.run b = .ok b.disk b := rfl
  rw [makeDirectories, run_bind, looked]
  dsimp only
  rw [run_bind]
  cases (b.disk.makeDirectories path).2 <;> rfl

/-- Making directories is harmless. -/
theorem isHarmless_makeDirectories (path : WrittenPath) : (makeDirectories path).IsHarmless := by
  intro b
  have files := b.disk.files_makeDirectories path
  rw [ends_iff, run_makeDirectories]
  cases (b.disk.makeDirectories path).2 with
  | none => exact .of_running files rfl rfl
  | some fault => exact .of_fault fault files rfl rfl

end Job

/-! ## Running nothing -/

namespace Job

variable {α β : Type}

/-- A job runs no tools, however it ends. -/
def RunsNothing (job : Job α) : Prop :=
  ∀ b, job.Ends b (fun _ b' => b'.commands = b.commands) fun _ b' => b'.commands = b.commands

/-- Jobs that run nothing run nothing one after the other. -/
theorem RunsNothing.bind {first : Job α} {next : α → Job β} (h : first.RunsNothing)
    (hn : ∀ a, (next a).RunsNothing) : (first >>= next).RunsNothing :=
  fun b => Ends.bind (h b) fun a b' same =>
    (hn a b').imp (fun _ _ h => h.trans same) fun _ _ h => h.trans same

/-- Going on with what was found runs nothing. -/
theorem runsNothing_ofExcept (found : Except Fault α) : (ofExcept found).RunsNothing := by
  cases found <;> exact fun _ => rfl

/-- Changing the disk runs nothing. -/
theorem runsNothing_changeDisk (change : Disk → Except Fault Disk) :
    (changeDisk change).RunsNothing := by
  have looked : disk.RunsNothing := fun _ => rfl
  exact looked.bind fun d => (runsNothing_ofExcept (change d)).bind fun _ _ => rfl

/-- Making directories runs nothing. -/
theorem runsNothing_makeDirectories (path : WrittenPath) : (makeDirectories path).RunsNothing := by
  intro b
  rw [ends_iff, run_makeDirectories]
  cases (b.disk.makeDirectories path).2 <;> rfl

/-- A job that runs nothing has run nothing when it is concluded. -/
theorem RunsNothing.conclude {job : Job Unit} (h : job.RunsNothing) (b : Bench) :
    (job.conclude b).1.commands = b.commands := by
  have h := h b
  rw [ends_iff] at h
  cases hj : job.run b with
  | ok _ b' =>
    rw [hj] at h
    rw [conclude_of_ok hj]
    exact h
  | error ending b' =>
    rw [hj] at h
    rw [conclude_of_error hj]
    exact h

end Job

/-! ## Changing the disk -/

/-- What a job needs is there, or the job is stopped at a defect that nobody foresaw. -/
theorem Job.ends_ofExcept {α : Type} {found : Except Fault α}
    (h : Reads Fault.isUnreported true found) (b : Bench) :
    (Job.ofExcept found).Ends b (fun a b' => found = .ok a ∧ b' = b)
      fun ending b' => (∃ fault, ending = .crash fault) ∧ b' = b := by
  cases found with
  | ok a => exact ⟨rfl, rfl⟩
  | error fault =>
    refine ⟨⟨fault, ?_⟩, rfl⟩
    have unreported : fault.isReported = false := by
      rcases h with h | ⟨-, h⟩
      · simpa [Fault.isUnreported] using h
      · cases h
    rw [Ending.ofFault, unreported]
    rfl

/-- Directories are there afterwards, or the job is stopped at a defect that nobody foresaw; in
either case everything stays where it was. -/
theorem Job.ends_makeDirectories (path : WrittenPath) (b : Bench) :
    (Job.makeDirectories path).Ends b
      (fun _ b' => b.disk.Keeps b'.disk ∧ b'.disk.files = b.disk.files)
      fun ending b' => (∃ fault, ending = .crash fault) ∧ b.disk.Keeps b'.disk ∧
        b'.disk.files = b.disk.files := by
  have keeps := b.disk.keeps_makeDirectories path
  have files := b.disk.files_makeDirectories path
  rw [ends_iff, run_makeDirectories]
  cases hf : (b.disk.makeDirectories path).2 with
  | none => exact ⟨keeps, files⟩
  | some fault =>
    refine ⟨⟨fault, ?_⟩, keeps, files⟩
    rw [Ending.ofFault, b.disk.isReported_makeDirectories path hf]
    rfl

/-- A document is written where its path leads, or the job is stopped at a defect that nobody
foresaw. -/
theorem Job.ends_write (path : WrittenPath) (content : FileContent) (b : Bench) :
    (Job.changeDisk fun d => d.write path content).Ends b
      (fun _ b' => ∃ q, b.disk.Gains path content q b'.disk)
      fun ending b' => (∃ fault, ending = .crash fault) ∧ b' = b := by
  have looked : disk.Ends b (fun d b' => d = b.disk ∧ b' = b)
      fun ending b' => (∃ fault, ending = .crash fault) ∧ b' = b := ⟨rfl, rfl⟩
  refine looked.bind ?_
  rintro d b' ⟨rfl, rfl⟩
  refine Ends.bind (ends_ofExcept (b'.disk.reads_write path content) b') ?_
  rintro changed b'' ⟨written, rfl⟩
  exact Disk.exists_of_write_eq_ok written

end Bindery
