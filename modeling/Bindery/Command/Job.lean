import Bindery.Command.HelpPage
import Bindery.Disk
import Bindery.Work

/-!
# Jobs

A command does its job on a bench: it reads and changes the disk, prints, warns and runs other
programs. A job ends when it is done or at the first thing that stops it, and what it did until then
stays done.
-/

namespace Bindery

/-- Everything that a command can see and change. -/
structure Bench where
  /-- The name by which the command was called. -/
  program : String := "bindery"
  /-- The disk. -/
  disk : Disk
  /-- How the programs to come will end; when the list runs out they succeed. -/
  outcomes : List Outcome := []
  /-- The programs run so far, in order. -/
  commands : List Command := []
  /-- The warnings so far, in order. -/
  warnings : List String := []
  /-- What was printed so far. -/
  printed : String := ""

/-- How a command ends. -/
inductive Ending where
  /-- With an exit status and a complaint; zero is success. -/
  | exit (status : Int) (complaint : String)
  /-- Without having begun, because its arguments are not understood. -/
  | refused
  /-- At a defect of its input that nobody foresaw. -/
  | crash (fault : Fault)
  deriving DecidableEq

namespace Ending

/-- The end of a command that did its job. -/
def success : Ending := .exit 0 ""

/-- The end at a fault: a fault that is reported becomes a complaint. -/
def ofFault (fault : Fault) : Ending :=
  if fault.isReported then .exit 1 ("Error: " ++ fault.message ++ "\n") else .crash fault

/-- The exit status that an ending amounts to. -/
def status : Ending → Int
  | .exit status _ => status
  | .refused => 2
  | .crash _ => 1

end Ending

/-- What a command does on its bench, up to its end if something stops it. -/
abbrev Job := EStateM Ending Bench

namespace Job

/-- Prints a line. -/
def say (line : String) : Job Unit :=
  modify fun b => { b with printed := b.printed ++ line ++ "\n" }

/-- Warns. -/
def warn (warning : String) : Job Unit :=
  modify fun b => { b with warnings := b.warnings ++ [warning] }

/-- Stops at a fault. -/
def fail {α : Type} (fault : Fault) : Job α := throw (.ofFault fault)

/-- Goes on with what was found, or stops at the fault of finding it. -/
def ofExcept {α : Type} : Except Fault α → Job α
  | .ok a => pure a
  | .error fault => fail fault

/-- The disk. -/
def disk : Job Disk := do return (← get).disk

/-- Changes the disk. -/
def changeDisk (change : Disk → Except Fault Disk) : Job Unit := do
  let changed ← ofExcept (change (← disk))
  modify fun b => { b with disk := changed }

/-- Makes a directory with everything that is missing above it. -/
def makeDirectories (path : WrittenPath) : Job Unit := do
  let (changed, fault) := (← disk).makeDirectories path
  modify fun b => { b with disk := changed }
  match fault with
  | some fault => fail fault
  | none => pure ()

/-- Runs a program in the working directory. -/
def runProgram (arguments : List String) : Job Outcome :=
  modifyGet fun b =>
    (b.outcomes.head?.getD (.exited 0),
      { b with commands := b.commands ++ [⟨arguments, none⟩], outcomes := b.outcomes.drop 1 })

/-- Takes the arguments that a command was given. -/
def arguments (grammar : Grammar) (given : List String) : Job Arguments :=
  match grammar.parse given with
  | .ok a => pure a
  | .error .usage => throw .refused
  | .error .help => do
    say (grammar.helpPage (← get).program)
    throw .success

/-- An operand that the job cannot do without. -/
def operand {α : Type} (place : Option α) : Job α :=
  match place with
  | some a => pure a
  | none => fail (.noSuchPart "operand" "path")

/-- Does a job to its end. -/
def conclude (job : Job Unit) (b : Bench) : Bench × Ending :=
  match job.run b with
  | .ok _ b => (b, .success)
  | .error ending b => (b, ending)

end Job

end Bindery
