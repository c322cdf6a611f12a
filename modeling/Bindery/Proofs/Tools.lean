import Bindery.Run

/-!
# Tools that are run

Only the request for the library of inline functions runs tools. Each command takes the next of the
outcomes to come, and the first that fails stops the run with a fault that names its program. Main
statement: `runModule_heeds`.
-/

namespace Bindery

/-- The fault of a command that ended with a status other than success. -/
def Command.failure (c : Command) (status : Int) : Fault :=
  .toolFailed (WrittenPath.ofString (c.arguments.headD "")).fileName status

/-- Of commands that were run in order with these outcomes, those that failed are told. -/
def AreHeeded (os : List Outcome) (ran : List Command) (told : Command → Int → Prop) : Prop :=
  ∀ (i : Nat) (command : Command) (status : Int), ran[i]? = some command →
    (os[i]?.getD (.exited 0)).failure? = some status → told command status

namespace AreHeeded

variable {os : List Outcome} {ran ran' : List Command} {told : Command → Int → Prop}

/-- Where no command was run, none failed. -/
theorem nil (os : List Outcome) (told : Command → Int → Prop) : AreHeeded os [] told := by
  intro i command status h
  simp at h

/-- What follows from what is told of a command that failed is told of it as well. -/
theorem mono {told' : Command → Int → Prop} (h : AreHeeded os ran told)
    (follows : ∀ command status, told command status → told' command status) :
    AreHeeded os ran told' :=
  fun i command status hi failed => follows command status (h i command status hi failed)

/-- After commands that did not fail, those that are run next are heeded. -/
theorem append (first : AreHeeded os ran fun _ _ => False)
    (next : AreHeeded (os.drop ran.length) ran' told) : AreHeeded os (ran ++ ran') told := by
  intro i command status h failed
  by_cases hi : i < ran.length
  · rw [List.getElem?_append_left hi] at h
    exact (first i command status h failed).elim
  · rw [List.getElem?_append_right (Nat.le_of_not_lt hi)] at h
    refine next (i - ran.length) command status h ?_
    rwa [List.getElem?_drop, Nat.add_sub_cancel' (Nat.le_of_not_lt hi)]

/-- What is told of the one command that failed is told of it. -/
theorem single {command : Command}
    (h : ∀ status, (os.head?.getD (.exited 0)).failure? = some status → told command status) :
    AreHeeded os [command] told := by
  intro i c status hc failed
  cases i with
  | zero =>
    obtain rfl : command = c := by simpa using hc
    rw [List.head?_eq_getElem?] at h
    exact h status failed
  | succ i => simp at hc

end AreHeeded

namespace Work

variable {w w' : Work} {os : List Outcome}

/-! ## Steps that run nothing -/

/-- Nothing was run between two states of the work. -/
def Quiet (w w' : Work) : Prop := w'.commands = w.commands ∧ w'.outcomes = w.outcomes

/-- Nothing is run by doing nothing. -/
theorem Quiet.refl (w : Work) : w.Quiet w := ⟨rfl, rfl⟩

/-- Nothing is run by two steps if nothing is run by either. -/
theorem Quiet.trans {w'' : Work} (h : w.Quiet w') (h' : w'.Quiet w'') : w.Quiet w'' :=
  ⟨h'.1.trans h.1, h'.2.trans h.2⟩

/-- Nothing is run by stopping. -/
theorem quiet_stopAt (h : w.Quiet w') (stop : Option Stop) : w.Quiet (w'.stopAt stop) := by
  cases stop <;> exact h

/-- Nothing is run by a step that is taken only if there was no fault, if the step runs nothing. -/
theorem quiet_andThen {next : Work → Work} (h : w.Quiet (next w)) : w.Quiet (w.andThen next) := by
  rw [andThen]
  split
  · exact h
  · exact .refl w

/-- Nothing is run by steps for every item if none of them runs anything. -/
theorem quiet_forEach {α : Type} (items : List α) {step : α → Work → Work}
    (h : ∀ a (w : Work), w.Quiet (step a w)) (w : Work) : w.Quiet (w.forEach items step) := by
  induction items generalizing w with
  | nil => exact .refl w
  | cons a items ih => exact (quiet_andThen (h a w)).trans (ih (w.andThen (step a)))

/-- Nothing is run by a step that needs something if the step runs nothing. -/
theorem quiet_require {α : Type} (found : Except Fault α) {next : α → Work → Work}
    (h : ∀ a, w.Quiet (next a w)) : w.Quiet (w.require found next) := by
  cases found with
  | ok a => exact h a
  | error fault => exact ⟨rfl, rfl⟩

/-! ## Steps that heed what they run -/

/-- When these outcomes were to come at first, every command took the next one, and the fault of
the work is that of the command that failed, if one did. -/
structure Heeds (os : List Outcome) (w : Work) : Prop where
  /-- The outcomes to come are those that no command took. -/
  outcomes : w.outcomes = os.drop w.commands.length
  /-- A command that failed is told by the fault. -/
  told : AreHeeded os w.commands fun command status => w.fault = some (command.failure status)

namespace Heeds

/-- If nothing has stopped the work, no command has failed. -/
theorem succeeded (h : w.Heeds os) (running : w.fault = none) :
    AreHeeded os w.commands fun _ _ => False :=
  h.told.mono fun command status stopped => by
    rw [running] at stopped
    cases stopped

/-- Where nothing is run and nothing has failed before, nothing is left unheeded. -/
theorem of_quiet (h : w.Heeds os) (running : w.fault = none) (quiet : w.Quiet w') :
    w'.Heeds os where
  outcomes := by rw [quiet.1, quiet.2, h.outcomes]
  told := by
    rw [quiet.1]
    exact (h.succeeded running).mono fun _ _ => False.elim

/-- A step that is taken only if there was no fault keeps to what is heeded. -/
theorem andThen {next : Work → Work} (h : w.Heeds os)
    (goes : w.fault = none → (next w).Heeds os) : (w.andThen next).Heeds os := by
  rw [Work.andThen]
  cases hf : w.fault with
  | none => exact goes hf
  | some fault => exact h

/-- A step that needs something keeps to what is heeded. -/
theorem require {α : Type} (h : w.Heeds os) (running : w.fault = none) (found : Except Fault α)
    {next : α → Work → Work} (goes : ∀ a, (next a w).Heeds os) : (w.require found next).Heeds os := by
  cases found with
  | ok a => exact goes a
  | error fault => exact h.of_quiet running ⟨rfl, rfl⟩

/-- Running a tool takes the next outcome and heeds it. -/
theorem runTool (h : w.Heeds os) (running : w.fault = none) (tool : Value)
    (arguments : List String) (directory : String) :
    (runTool tool arguments directory w).Heeds os := by
  cases tool with
  | text program =>
    -- The work was not stopped, so all earlier tools succeeded and only the new one can have failed.
    let command : Command := ⟨program :: arguments, some directory⟩
    have shorter : w.outcomes.drop 1 = os.drop (w.commands ++ [command]).length := by
      rw [h.outcomes, List.drop_drop, List.length_append, List.length_singleton]
    have next {told : Command → Int → Prop} (ends : ∀ status,
        (w.outcomes.head?.getD (.exited 0)).failure? = some status → told command status) :
        AreHeeded os (w.commands ++ [command]) told :=
      (h.succeeded running).append (.single (h.outcomes ▸ ends))
    rw [Bindery.runTool]
    cases failed : (w.outcomes.head?.getD (.exited 0)).failure? with
    | none => exact ⟨shorter, next fun status ends => absurd (failed.symm.trans ends) nofun⟩
    | some status =>
      refine ⟨shorter, next fun status' ends => ?_⟩
      obtain rfl := Option.some.inj (failed.symm.trans ends)
      rfl
  | _ => exact h.of_quiet running ⟨rfl, rfl⟩

/-- Building the library of inline functions heeds its tools. -/
theorem buildInlines (h : w.Heeds os) (running : w.fault = none) (r : InlinesRequest) :
    (buildInlines r w).Heeds os := by
  refine h.require running _ fun directory => h.require running _ fun projectFile => ?_
  refine (h.runTool running r.qmake [projectFile] directory).andThen fun made => ?_
  exact (h.runTool running r.qmake [projectFile] directory).runTool made r.make [] directory

/-- Requesting the library of inline functions heeds the tools that build it. -/
theorem requestInlines (h : w.Heeds os) (running : w.fault = none) (r : InlinesRequest)
    (hasBuilder : Bool) : (requestInlines r hasBuilder w).Heeds os := by
  refine h.require running _ fun libraryPath => ?_
  have noted : Heeds os { w with tally := { w.tally with libraryPath := some libraryPath } } :=
    h.of_quiet running ⟨rfl, rfl⟩
  cases hasBuilder with
  | false => exact noted
  | true =>
    dsimp only
    rw [if_pos rfl]
    exact (noted.buildInlines running r).andThen fun done =>
      (noted.buildInlines running r).of_quiet done ⟨rfl, rfl⟩

end Heeds

end Work

/-! ## Passes -/

namespace Policy

variable (p : Policy) (w : Work)

/-- Specializing the string class runs nothing. -/
theorem quiet_specializeString : w.Quiet (p.specializeString w) := by
  refine Work.quiet_require _ fun found => ?_
  split
  · exact ⟨rfl, rfl⟩
  · exact ⟨rfl, rfl⟩

/-- Naming enumerations runs nothing. -/
theorem quiet_nameTypedEnums (className : Value) : w.Quiet (p.nameTypedEnums className w) :=
  Work.quiet_require _ fun _ => ⟨rfl, rfl⟩

/-- Making enumerations accessible runs nothing. -/
theorem quiet_publishEnum (entry : Option ClassEnum) : w.Quiet (p.publishEnum entry w) := by
  cases entry with
  | none => exact ⟨rfl, rfl⟩
  | some e =>
    refine Work.quiet_require _ fun found => ?_
    split
    · exact ⟨rfl, rfl⟩
    · exact ⟨rfl, rfl⟩

/-- Suppressing operators runs nothing. -/
theorem quiet_ignoreOperator (removal : OperatorRemoval) :
    w.Quiet (p.ignoreOperator removal w) := by
  refine Work.quiet_require _ fun found => Work.quiet_require _ fun _ => ?_
  split
  · exact ⟨rfl, rfl⟩
  · exact .refl w

/-- Applying a policy runs nothing. -/
theorem quiet_apply : w.Quiet (p.apply w) := by
  rw [apply]
  split
  · have valued : w.Quiet (p.setValueTypes w) := ⟨rfl, rfl⟩
    have unbound (names : String × String) (w : Work) : w.Quiet (ignoreUnbound names w) := ⟨rfl, rfl⟩
    have bound := Work.quiet_forEach unboundMethods unbound (p.setValueTypes w)
    have special (w : Work) :
        w.Quiet (if p.stringClass.isGiven then p.specializeString w else w) := by
      split
      · exact p.quiet_specializeString w
      · exact .refl w
    have each {α : Type} (items : List α) {step : α → Work → Work}
        (h : ∀ a (w : Work), w.Quiet (step a w)) (w : Work) :
        w.Quiet (w.andThen fun w => w.forEach items step) :=
      Work.quiet_andThen (Work.quiet_forEach items h w)
    exact (((valued.trans bound).trans (special _)).trans
      (each _ (fun className w => p.quiet_nameTypedEnums w className) _)).trans
      ((each _ (fun entry w => p.quiet_publishEnum w entry) _).trans
        (each _ (fun removal w => p.quiet_ignoreOperator w removal) _))
  · exact ⟨rfl, rfl⟩

end Policy

/-- A pass heeds what it runs. -/
theorem Pass.work_heeds (pass : Pass) {w : Work} {os : List Outcome} (h : w.Heeds os)
    (running : w.fault = none) : (pass.work w).Heeds os := by
  cases pass with
  | requestInlines request hasBuilder => exact h.requestInlines running request hasBuilder
  | normalize policy => exact h.of_quiet running (policy.quiet_apply w)
  | hookEvents options =>
    refine h.require running _ fun index => h.of_quiet running ?_
    exact Work.quiet_stopAt ⟨rfl, rfl⟩ _
  | backfillComments _ | rename _ _ | signalEvents _ | undefinedEvents =>
    exact h.of_quiet running (Work.quiet_stopAt ⟨rfl, rfl⟩ _)
  | origin _ _ | resolve | clearComments | undefined => exact h.of_quiet running ⟨rfl, rfl⟩

/-! ## Runs -/

/-- A pipeline heeds what its passes run. -/
theorem Pipeline.run_heeds (p : Pipeline) {os : List Outcome} : ∀ {w : Work}, w.Heeds os →
    w.fault = none → (p.run w).2.Heeds os := by
  induction p with
  | nil => exact fun h _ => h
  | cons s rest ih =>
    intro w h running
    -- Every pass starts with the tally of its step; what is run goes on from pass to pass.
    have done : (s.runDirectly w).2.Heeds os :=
      s.pass.work_heeds (w := { w with tally := s.tally }) ⟨h.outcomes, h.told⟩ running
    rw [run]
    split
    · exact h.of_quiet running ⟨rfl, rfl⟩
    · dsimp only
      cases hf : (s.runDirectly w).2.fault with
      | some fault => exact done
      | none =>
        have advanced : (s.advance (s.runDirectly w).2).Heeds os := ⟨done.outcomes, done.told⟩
        exact ih advanced hf

/-- A run heeds the commands that it runs: each takes the next of the outcomes to come, and the run
stops at the first that fails with a fault that names its program. -/
theorem runModule_heeds (info : ModuleInfo) (config : Value) (corpus : Corpus)
    (request : Option InlinesRequest) (hasBuilder : Bool) (t : Tree) (os : List Outcome) :
    (runModule info config corpus request hasBuilder { tree := t, outcomes := os }).2.Heeds os := by
  have start : Work.Heeds os { tree := t, outcomes := os } := ⟨rfl, .nil os _⟩
  rw [runModule]
  split
  · exact start.of_quiet rfl ⟨rfl, rfl⟩
  · next pipeline _ => exact pipeline.run_heeds start rfl

end Bindery
