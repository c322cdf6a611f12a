import Bindery.Proofs.Comparison
import Bindery.Proofs.Heirs

/-!
# Works side by side

Two works go in step on a tree and on the same tree with its units in another order: as long as none
of them has stopped, they have recorded the same and their trees are rearranged as they were at first;
and if one stops, so does the other, with the same fault. What every step of a pass keeps so, the pass
does; and if every pass of a pipeline does, the pipeline does. Main statement: `Pipeline.run_inStep`.
-/

namespace Bindery

namespace Work

/-- Two works that are equally far, on trees of which one is the other rearranged; the former has
a property. -/
structure Level (σ : Equiv.Perm Nat) (P : Tree → Prop) (w w' : Work) : Prop where
  /-- The first has not stopped. -/
  fault : w.fault = none
  /-- Neither has the second. -/
  fault' : w'.fault = none
  /-- The same outcomes are to come. -/
  outcomes : w'.outcomes = w.outcomes
  /-- The same was recorded. -/
  tally : w.tally.Alike w'.tally
  /-- The trees differ in the order of their units. -/
  tree : w.tree.Rearranged σ w'.tree
  /-- The property holds. -/
  holds : P w.tree

/-- Two works that have stopped with the same fault or are equally far. -/
structure InStep (σ : Equiv.Perm Nat) (P : Tree → Prop) (w w' : Work) : Prop where
  /-- They have stopped alike. -/
  fault : w'.fault = w.fault
  /-- If they have not, they are equally far. -/
  level : w.fault = none → w.Level σ P w'

variable {σ : Equiv.Perm Nat} {P Q : Tree → Prop} {w w' : Work}

namespace Level

variable (h : w.Level σ P w')

include h

/-- Works that are equally far are in step. -/
theorem inStep : w.InStep σ P w' := ⟨h.fault'.trans h.fault.symm, fun _ => h⟩

/-- What follows from the property holds as well. -/
theorem mono (imp : ∀ t, P t → Q t) : w.Level σ Q w' :=
  ⟨h.fault, h.fault', h.outcomes, h.tally, h.tree, imp _ h.holds⟩

/-- Raising the same counter keeps works level. -/
theorem count {key : String} (free : Tally.IsFree key) (amount : Nat) :
    (w.count key amount).Level σ P (w'.count key amount) :=
  ⟨h.fault, h.fault', h.outcomes, h.tally.add free amount, h.tree, h.holds⟩

/-- Raising the same counter by the same, if there is something to be counted, keeps works level. -/
theorem countSome {key : String} (free : Tally.IsFree key) {amount amount' : Nat}
    (same : amount' = amount) : (w.countSome key amount).Level σ P (w'.countSome key amount') := by
  subst same
  exact ⟨h.fault, h.fault', h.outcomes, h.tally.addSome free amount', h.tree, h.holds⟩

/-- Changing both trees so that they are rearranged still keeps works level. -/
theorem withTree {t t' : Tree} (tree : t.Rearranged σ t') (holds : Q t) :
    Level σ Q { w with tree := t } { w' with tree := t' } :=
  ⟨h.fault, h.fault', h.outcomes, h.tally, tree, holds⟩

omit h

/-- What keeps works level for every item keeps them level for all of them in a row. -/
theorem forEach {α : Type} {step : α → Work → Work} (items : List α)
    (hs : ∀ a ∈ items, ∀ {v v' : Work}, v.Level σ P v' → (step a v).Level σ P (step a v')) :
    ∀ {w w' : Work}, w.Level σ P w' → (w.forEach items step).Level σ P (w'.forEach items step) := by
  induction items with
  | nil => exact fun h => h
  | cons a items ih =>
    intro w w' h
    have going : w.andThen (step a) = step a w := by rw [Work.andThen, h.fault]
    have going' : w'.andThen (step a) = step a w' := by rw [Work.andThen, h.fault']
    rw [Work.forEach, Work.forEach, List.foldl_cons, List.foldl_cons, going, going']
    exact ih (fun b hb => hs b (List.mem_cons_of_mem _ hb)) (hs a List.mem_cons_self h)

end Level

namespace InStep

/-- Works that have stopped with the same fault are in step. -/
theorem of_fault {fault : Fault} (hw : w.fault = some fault) (hw' : w'.fault = some fault) :
    w.InStep σ P w' := by
  refine ⟨hw'.trans hw.symm, fun running => ?_⟩
  rw [hw] at running
  cases running

/-- Works that need something which is there for both or for neither go in step if they do where it
is there. -/
theorem require {α : Type} {found found' : Except Fault α} {f : α → α}
    (same : found' = found.map f) {next next' : α → Work → Work}
    (hn : ∀ a, found = .ok a → (next a w).InStep σ Q (next' (f a) w')) :
    (w.require found next).InStep σ Q (w'.require found' next') := by
  subst same
  cases found with
  | ok a => exact hn a rfl
  | error fault => exact of_fault rfl rfl

/-- What works keep in step they keep in step one after the other. -/
theorem andThen (h : w.InStep σ P w') {next next' : Work → Work}
    (hn : ∀ {v v' : Work}, v.Level σ P v' → (next v).InStep σ Q (next' v')) :
    (w.andThen next).InStep σ Q (w'.andThen next') := by
  rw [Work.andThen, Work.andThen, h.fault]
  cases hf : w.fault with
  | none => exact hn (h.level hf)
  | some fault => exact of_fault hf (h.fault.trans hf)

/-- What works keep in step for every item they keep in step for all of them in a row. -/
theorem forEach {α : Type} {step : α → Work → Work} (items : List α)
    (hs : ∀ a ∈ items, ∀ {v v' : Work}, v.Level σ P v' → (step a v).InStep σ P (step a v')) :
    ∀ {w w' : Work}, w.InStep σ P w' → (w.forEach items step).InStep σ P (w'.forEach items step) := by
  induction items with
  | nil => exact fun h => h
  | cons a items ih =>
    intro w w' h
    exact ih (fun a ha => hs a (List.mem_cons_of_mem _ ha)) (h.andThen (hs a List.mem_cons_self))

end InStep

end Work

/-! ## Pipelines -/

namespace Pass

/-- On trees with a property that differ in the order of their units, a pass keeps works in step and
leaves trees with another property behind. -/
def KeepsStep (σ : Equiv.Perm Nat) (P : Tree → Prop) (pass : Pass) (Q : Tree → Prop) : Prop :=
  ∀ {w w' : Work}, w.Level σ P w' → (pass.work w).InStep σ Q (pass.work w')

/-- Passes that keep works in step one after the other, from trees with a property. -/
inductive KeepStep (σ : Equiv.Perm Nat) : (Tree → Prop) → List Pass → Prop
  /-- There is nothing left to be done. -/
  | nil {P : Tree → Prop} : KeepStep σ P []
  /-- The first does, and the others do from the trees that it leaves behind, whatever stage these are
  said to be at. -/
  | cons {P Q : Tree → Prop} {pass : Pass} {passes : List Pass} (first : pass.KeepsStep σ P Q)
    (atStage : ∀ (t : Tree) (stage : Stage), Q t → Q { t with stage })
    (others : KeepStep σ Q passes) : KeepStep σ P (pass :: passes)

/-- Passes that keep works in step do so from trees of which more is known. -/
theorem KeepStep.of_imp {σ : Equiv.Perm Nat} {P P' : Tree → Prop} {passes : List Pass}
    (h : KeepStep σ P passes) (imp : ∀ t, P' t → P t) : KeepStep σ P' passes := by
  cases h with
  | nil => exact .nil
  | cons first atStage others => exact .cons (fun level => first (level.mono imp)) atStage others

end Pass

/-- With nothing recorded, works are level once the stage of their trees has moved on. -/
theorem Work.Level.advance {σ : Equiv.Perm Nat} {Q : Tree → Prop} {w w' : Work}
    (h : w.Level σ Q w') (s : Station) (atStage : ∀ (t : Tree) (stage : Stage), Q t →
      Q { t with stage }) :
    Level σ Q { s.advance w with tally := {} } { s.advance w' with tally := {} } where
  fault := h.fault
  fault' := h.fault'
  outcomes := h.outcomes
  tally := .empty
  tree := by
    have tree := h.tree.atStage (w.tree.stage.later s.pass.leadsTo)
    simp only [Station.advance, h.tree.stage]
    exact tree
  holds := atStage _ _ h.holds

/-- Passes that keep works in step do so in a pipeline: it stops with the same fault on both trees, or
it comes to an end on both, having recorded the same, with trees that differ in the order of their
units as they did at first. -/
theorem Pipeline.run_inStep {σ : Equiv.Perm Nat} {P : Tree → Prop} {passes : List Pass}
    (h : Pass.KeepStep σ P passes) : ∀ {w w' : Work},
      Work.Level σ P { w with tally := {} } { w' with tally := {} } →
        let done := (ofPasses passes).run w
        let done' := (ofPasses passes).run w'
        done'.2.fault = done.2.fault ∧
          (done.2.fault = none → done.1.Alike done'.1 ∧ done.2.tree.Rearranged σ done'.2.tree) := by
  induction h with
  | nil =>
    intro w w' level
    exact ⟨level.fault'.trans level.fault.symm, fun _ => ⟨.nil, level.tree⟩⟩
  | @cons P Q pass passes first atStage others ih =>
    intro w w' level
    have stage : w'.tree.stage = w.tree.stage := level.tree.stage
    have step := first level
    have split : ofPasses (pass :: passes) = { pass } :: ofPasses passes := rfl
    rw [split, run, run, stage]
    by_cases early : w.tree.stage < pass.needs
    · -- Both trees are at the same stage, so the pass is refused on both or on none.
      rw [if_pos early, if_pos early]
      refine ⟨rfl, fun running => ?_⟩
      cases running
    · rw [if_neg early, if_neg early]
      dsimp only [Station.runDirectly]
      rw [step.fault]
      cases hf : (pass.work { w with tally := {} }).fault with
      | some fault =>
        dsimp only
        refine ⟨step.fault, fun running => ?_⟩
        rw [hf] at running
        cases running
      | none =>
        have done := step.level hf
        dsimp only
        obtain ⟨fault, later⟩ := ih (done.advance { pass } atStage)
        refine ⟨fault, fun running => ?_⟩
        obtain ⟨alike, tree⟩ := later running
        exact ⟨.cons ⟨rfl, done.tally⟩ alike, tree⟩

end Bindery
