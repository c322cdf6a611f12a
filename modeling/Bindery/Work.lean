import Bindery.Tally
import Bindery.Tree

/-!
# What a pass leaves behind

A pass changes the tree and its tally, may warn, may run commands, and may stop early. What it did
before it stopped stays done.
-/

namespace Bindery

/-- A command that was run. -/
structure Command where
  /-- The program and its arguments. -/
  arguments : List String
  /-- The directory it was run in, if one was chosen. -/
  directory : Option String := none
  deriving DecidableEq, Repr

/-- How a command ended. -/
inductive Outcome where
  /-- With an exit status; zero is success. -/
  | exited (status : Int)
  /-- The program does not exist. -/
  | missing
  deriving DecidableEq, Repr

/-- The state that passes work on. -/
structure Work where
  /-- The tree. -/
  tree : Tree
  /-- What the running pass recorded. -/
  tally : Tally := {}
  /-- The warnings so far, in order. -/
  warnings : List String := []
  /-- The commands run so far, in order. -/
  commands : List Command := []
  /-- What was printed so far. -/
  printed : String := ""
  /-- How the commands to come will end; when the list runs out they succeed. -/
  outcomes : List Outcome := []
  /-- Why the pass stopped early, if it did. -/
  fault : Option Fault := none

namespace Work

/-- Raises a counter. -/
def count (w : Work) (key : String) (amount : Nat := 1) : Work :=
  { w with tally := w.tally.add key amount }

/-- Raises a counter only if something was counted. -/
def countSome (w : Work) (key : String) (amount : Nat) : Work :=
  { w with tally := w.tally.addSome key amount }

/-- Stops with a fault. -/
def stop (w : Work) (fault : Fault) : Work := { w with fault := some fault }

/-- Stops where a walk through the tree stops, if it does. -/
def stopAt (w : Work) (stop : Option Stop) : Work :=
  match stop with
  | some halt => w.stop halt.fault
  | none => w

/-- Goes on unless the pass has stopped. -/
def andThen (w : Work) (next : Work → Work) : Work :=
  match w.fault with
  | none => next w
  | some _ => w

/-- Does a step for every item in order, until one stops. -/
def forEach {α : Type} (items : List α) (step : α → Work → Work) (w : Work) : Work :=
  items.foldl (fun w item => w.andThen (step item)) w

/-- Looks something up that the step cannot do without. -/
def require {α : Type} (found : Except Fault α) (next : α → Work → Work) (w : Work) : Work :=
  match found with
  | .ok a => next a w
  | .error fault => w.stop fault

end Work

end Bindery
