import Bindery.Pipeline
import Bindery.Proofs.Change
import Bindery.Proofs.Turning

/-!
# Rows of passes

A pipeline runs its passes one after the other, and two things can end it early: a pass for which
the tree is not ready, and a pass that stops. Whether the tree is ready is a matter of stages alone,
and a tree that a pipeline has led to is ready for all of its passes once more. Whether a pass stops
is a matter of the tree that the passes before it led to. Main statements: `areReady_of_completes`,
`areReady_again`, `Lead.append`.
-/

namespace Bindery

/-! ## Stages -/

namespace Stage

/-- A stage behind another behind a third is behind the third. -/
theorem le_trans {a b c : Stage} (h : a ≤ b) (h' : b ≤ c) : a ≤ c := Nat.le_trans h h'

/-- What the later of two stages has reached, one of them has. -/
theorem le_later {a b c : Stage} (h : a ≤ b.later c) : a ≤ b ∨ a ≤ c := by
  rw [later] at h
  split at h
  · exact Or.inr h
  · exact Or.inl h

/-- The later of two stages has reached the first. -/
theorem le_later_left (a b : Stage) : a ≤ a.later b :=
  (Nat.le_max_left a.rank b.rank).trans_eq (rank_later a b).symm

/-- The later of two stages has reached the second. -/
theorem le_later_right (a b : Stage) : b ≤ a.later b :=
  (Nat.le_max_right a.rank b.rank).trans_eq (rank_later a b).symm

/-- A stage that has reached another is the later one. -/
theorem later_eq_left {a b : Stage} (h : b ≤ a) : a.later b = a := by
  refine rank_injective ?_
  rw [rank_later]
  exact Nat.max_eq_left h

end Stage

namespace Pass

/-- Whether a tree at a stage is ready for the first of some passes, and for each of the others once
those before it are done. -/
def AreReady : List Pass → Stage → Prop
  | [], _ => True
  | pass :: passes, stage => pass.needs ≤ stage ∧ AreReady passes (stage.later pass.leadsTo)

/-- The stage that passes lead a tree to. -/
def stageAfter (passes : List Pass) (stage : Stage) : Stage :=
  passes.foldl (fun stage pass => stage.later pass.leadsTo) stage

/-- Passes do not lead back. -/
theorem le_stageAfter (passes : List Pass) : ∀ stage, stage ≤ stageAfter passes stage := by
  induction passes with
  | nil => exact fun stage => Nat.le_refl stage.rank
  | cons pass passes ih =>
    exact fun stage => Stage.le_trans (stage.le_later_left pass.leadsTo) (ih _)

/-- What passes need and what they lead to, the stage that they have led to has reached. -/
theorem le_stageAfter_of_mem {passes : List Pass} : ∀ {stage : Stage}, AreReady passes stage →
    ∀ pass ∈ passes, pass.needs ≤ stageAfter passes stage ∧
      pass.leadsTo ≤ stageAfter passes stage := by
  induction passes with
  | nil => simp
  | cons first passes ih =>
    intro stage h pass hp
    rcases List.mem_cons.1 hp with rfl | hp
    · have hl := le_stageAfter passes (stage.later pass.leadsTo)
      exact ⟨Stage.le_trans (Stage.le_trans h.1 (stage.le_later_left pass.leadsTo)) hl,
        Stage.le_trans (stage.le_later_right pass.leadsTo) hl⟩
    · exact ih h.2 pass hp

/-- At a stage that has reached all that passes need and lead to, a tree is ready for them and they
lead no further. -/
theorem areReady_of_le {passes : List Pass} {stage : Stage}
    (h : ∀ pass ∈ passes, pass.needs ≤ stage ∧ pass.leadsTo ≤ stage) :
    AreReady passes stage ∧ stageAfter passes stage = stage := by
  induction passes with
  | nil => exact ⟨trivial, rfl⟩
  | cons pass passes ih =>
    obtain ⟨hn, hl⟩ := h pass List.mem_cons_self
    have ih := ih fun pass hp => h pass (List.mem_cons_of_mem _ hp)
    have hs : stageAfter (pass :: passes) stage = stageAfter passes (stage.later pass.leadsTo) :=
      rfl
    rw [AreReady, hs, Stage.later_eq_left hl]
    exact ⟨⟨hn, ih.1⟩, ih.2⟩

/-- A tree that passes have led to is ready for them once more, and they lead no further. -/
theorem areReady_again {passes : List Pass} {stage : Stage} (h : AreReady passes stage) :
    AreReady passes (stageAfter passes stage) ∧
      stageAfter passes (stageAfter passes stage) = stageAfter passes stage :=
  areReady_of_le (le_stageAfter_of_mem h)

/-- Being ready for some passes and others behind them is being ready for the former and, where they
lead, for the latter. -/
theorem areReady_append {passes later : List Pass} : ∀ {stage : Stage},
    AreReady (passes ++ later) stage ↔
      AreReady passes stage ∧ AreReady later (stageAfter passes stage) := by
  induction passes with
  | nil => exact fun {stage} => ⟨fun h => ⟨trivial, h⟩, fun h => h.2⟩
  | cons pass passes ih =>
    intro stage
    rw [List.cons_append, AreReady, AreReady, ih, and_assoc]
    rfl

/-- Some passes and others behind them lead where the latter lead from where the former do. -/
theorem stageAfter_append (passes later : List Pass) (stage : Stage) :
    stageAfter (passes ++ later) stage = stageAfter later (stageAfter passes stage) :=
  List.foldl_append

end Pass

/-! ## Pipelines -/

namespace Pipeline

/-- The passes of a pipeline. -/
def passes (p : Pipeline) : List Pass := p.map Station.pass

@[simp] theorem passes_ofPasses (passes : List Pass) : (ofPasses passes).passes = passes := by
  simp [ofPasses, Pipeline.passes, Function.comp_def]

/-- A pipeline keeps its passes when it is run. -/
theorem passes_run (p : Pipeline) : ∀ w : Work, (p.run w).1.passes = p.passes := by
  induction p with
  | nil => exact fun w => rfl
  | cons s rest ih =>
    intro w
    rw [run]
    split
    · rfl
    · dsimp only
      split
      · rfl
      · exact congrArg (s.pass :: ·) (ih _)

/-- What the first pass of a pipeline leaves behind, at the stage that it leads to. -/
def afterFirst (s : Station) (w : Work) : Work := (s.runDirectly w).1.advance (s.runDirectly w).2

/-- A pass leaves the stage to the pipeline. -/
theorem stage_runDirectly (s : Station) (w : Work) :
    (s.runDirectly w).2.tree.stage = w.tree.stage :=
  (s.pass.work_changes { w with tally := s.tally }).stage

/-- The first pass of a pipeline moves the tree on to where it leads. -/
theorem stage_afterFirst (s : Station) (w : Work) :
    (afterFirst s w).tree.stage = w.tree.stage.later s.pass.leadsTo :=
  congrArg (Stage.later · s.pass.leadsTo) (stage_runDirectly s w)

/-- Of a pipeline that comes to an end, the tree is ready for the first pass, this finishes, and the
others come to an end after it. -/
theorem run_cons_of_completes {s : Station} {rest : Pipeline} {w : Work}
    (h : (run (s :: rest) w).2.fault = none) :
    s.pass.needs ≤ w.tree.stage ∧ (s.runDirectly w).2.fault = none ∧
      (run (s :: rest) w).2 = (rest.run (afterFirst s w)).2 := by
  rw [run] at h ⊢
  split at h
  · cases h
  · next ready =>
    dsimp only at h ⊢
    cases hf : (s.runDirectly w).2.fault with
    | some fault =>
      rw [hf] at h
      dsimp only at h
      rw [hf] at h
      cases h
    | none =>
      rw [if_neg ready]
      exact ⟨Nat.le_of_not_lt ready, rfl, rfl⟩

/-- If the tree is ready for the first pass and it finishes, the others are run after it. -/
theorem run_cons_of_ready {s : Station} {rest : Pipeline} {w : Work}
    (ready : s.pass.needs ≤ w.tree.stage) (h : (s.runDirectly w).2.fault = none) :
    (run (s :: rest) w).2 = (rest.run (afterFirst s w)).2 := by
  have ready : ¬ w.tree.stage < s.pass.needs := Nat.not_lt_of_le ready
  rw [run, if_neg ready]
  dsimp only
  rw [h]
  rfl

/-- What every pass of a pipeline keeps, the pipeline keeps, however far it gets. -/
theorem run_keeps {P : Tree → Prop} (p : Pipeline)
    (advance : ∀ (t : Tree) (stage : Stage), P t → P { t with stage })
    (work : ∀ s ∈ p, ∀ w : Work, P w.tree → P (s.pass.work w).tree) :
    ∀ w : Work, P w.tree → P (p.run w).2.tree := by
  induction p with
  | nil => exact fun w h => h
  | cons s rest ih =>
    intro w h
    have hw : P (s.runDirectly w).2.tree :=
      work s List.mem_cons_self { w with tally := s.tally } h
    rw [run]
    split
    · exact h
    · dsimp only
      cases (s.runDirectly w).2.fault with
      | some fault => exact hw
      | none => exact ih (fun s hs => work s (List.mem_cons_of_mem _ hs)) _ (advance _ _ hw)

/-- If the passes of a pipeline keep one thing, and those of another one a second thing that follows
from the first, the latter is the case after both, however far they get. -/
theorem run_append_keeps {P Q : Tree → Prop} (p q : Pipeline)
    (advance : ∀ (t : Tree) (stage : Stage), P t → P { t with stage })
    (work : ∀ s ∈ p, ∀ w : Work, P w.tree → P (s.pass.work w).tree)
    (follows : ∀ t : Tree, P t → Q t)
    (advance' : ∀ (t : Tree) (stage : Stage), Q t → Q { t with stage })
    (work' : ∀ s ∈ q, ∀ w : Work, Q w.tree → Q (s.pass.work w).tree) :
    ∀ w : Work, P w.tree → Q ((p ++ q).run w).2.tree := by
  induction p with
  | nil => exact fun w h => q.run_keeps advance' work' w (follows _ h)
  | cons s rest ih =>
    intro w h
    have hw : P (s.runDirectly w).2.tree :=
      work s List.mem_cons_self { w with tally := s.tally } h
    rw [List.cons_append, run]
    split
    · exact follows _ h
    · dsimp only
      cases (s.runDirectly w).2.fault with
      | some fault => exact follows _ hw
      | none => exact ih (fun s hs => work s (List.mem_cons_of_mem _ hs)) _ (advance _ _ hw)

/-- A pipeline can be run in two parts: the states between its passes are those that its beginnings
lead to. -/
theorem run_append (p q : Pipeline) : ∀ w : Work, w.fault = none →
    (p ++ q).run w =
      match (p.run w).2.fault with
      | some _ => ((p.run w).1 ++ q, (p.run w).2)
      | none => ((p.run w).1 ++ (q.run (p.run w).2).1, (q.run (p.run w).2).2) := by
  induction p with
  | nil =>
    intro w hw
    simp [run, hw]
  | cons s rest ih =>
    intro w hw
    rw [List.cons_append, run, run]
    by_cases early : w.tree.stage < s.pass.needs
    · simp [early, Work.stop]
    · simp only [if_neg early]
      cases hd : (s.runDirectly w).2.fault with
      | some fault => simp [hd]
      | none =>
        dsimp only
        rw [ih ((s.runDirectly w).1.advance (s.runDirectly w).2) hd]
        cases (run rest ((s.runDirectly w).1.advance (s.runDirectly w).2)).2.fault <;> rfl

/-- A tree was ready for the passes of a pipeline that has come to an end, and is where these lead. -/
theorem areReady_of_completes (p : Pipeline) : ∀ {w : Work}, (p.run w).2.fault = none →
    Pass.AreReady p.passes w.tree.stage ∧
      (p.run w).2.tree.stage = Pass.stageAfter p.passes w.tree.stage := by
  induction p with
  | nil => exact fun _ => ⟨trivial, rfl⟩
  | cons s rest ih =>
    intro w h
    obtain ⟨ready, -, hr⟩ := run_cons_of_completes h
    rw [hr] at h ⊢
    have ih := ih h
    rw [stage_afterFirst] at ih
    exact ⟨⟨ready, ih.1⟩, ih.2⟩

end Pipeline

/-! ## Passes that lead from tree to tree -/

/-- Whatever a pipeline of some passes has recorded, and whatever stage the tree is at that is ready
for them, it comes from one tree to another if that is possible, and stops otherwise. -/
def Pass.Lead (passes : List Pass) (t : Tree) (os : List Outcome) (possible : Prop) (t' : Tree)
    (os' : List Outcome) : Prop :=
  ∀ (p : Pipeline) (w : Work) (stage : Stage), p.passes = passes → AreReady passes stage →
    w.IsAt { t with stage } os →
      (p.run w).2.Reaches { t' with stage := stageAfter passes stage } os' possible

namespace Pass

variable {passes later : List Pass} {t t₁ t₂ : Tree} {os os₁ os₂ : List Outcome} {p q : Prop}

/-- No passes lead nowhere else. -/
theorem lead_nil (t : Tree) (os : List Outcome) : Lead [] t os True t os := by
  intro pipeline w stage hp _ hw
  obtain rfl : pipeline = [] := List.map_eq_nil_iff.1 hp
  exact ⟨fun _ => hw, fun _ => trivial⟩

/-- A pass leads where its work comes to. -/
theorem Lead.single {pass : Pass}
    (h : ∀ (stage : Stage) (w : Work), w.IsAt { t with stage } os →
      (pass.work w).Reaches { t₁ with stage } os₁ p) : Lead [pass] t os p t₁ os₁ := by
  intro pipeline w stage hp ready hw
  obtain ⟨s, rest, rfl, rfl, hrest⟩ := List.map_eq_cons_iff.1 hp
  obtain rfl : rest = [] := List.map_eq_nil_iff.1 hrest
  have hs : s.pass.needs ≤ w.tree.stage := by
    rw [hw.tree]
    exact ready.1
  have hr : (s.runDirectly w).2.Reaches { t₁ with stage } os₁ p :=
    h stage { w with tally := s.tally } ⟨hw.fault, hw.tree, hw.outcomes⟩
  constructor
  · intro hp
    have hd := hr.done hp
    rw [Pipeline.run_cons_of_ready hs hd.fault]
    refine ⟨hd.fault, ?_, hd.outcomes⟩
    rw [Pipeline.run, Pipeline.afterFirst, Station.advance, hd.tree]
    rfl
  · intro hf
    exact hr.needed (Pipeline.run_cons_of_completes hf).2.1

/-- Conditions that say the same can be exchanged. -/
theorem Lead.congr (h : Lead passes t os p t₁ os₁) (hpq : p ↔ q) : Lead passes t os q t₁ os₁ := by
  intro pipeline w stage hp ready hw
  exact (h pipeline w stage hp ready hw).congr hpq

/-- Passes and others behind them lead where the latter lead from where the former do. -/
theorem Lead.append (h : Lead passes t os p t₁ os₁) (h' : Lead later t₁ os₁ q t₂ os₂) :
    Lead (passes ++ later) t os (p ∧ q) t₂ os₂ := by
  intro pipeline w stage hp ready hw
  obtain ⟨first, second, rfl, hfirst, hsecond⟩ := List.map_eq_append_iff.1 hp
  obtain ⟨ready, ready'⟩ := areReady_append.1 ready
  have hr := h first w stage hfirst ready hw
  rw [Pipeline.run_append first second w hw.fault, stageAfter_append]
  cases hf : (Pipeline.run first w).2.fault with
  | some fault =>
    refine ⟨fun hpq => ?_, fun hn => ?_⟩
    · rw [(hr.done hpq.1).fault] at hf
      cases hf
    · rw [hf] at hn
      cases hn
  | none =>
    have hp := hr.needed hf
    have hr' := h' second _ _ hsecond ready' (hr.done hp)
    exact ⟨fun hpq => hr'.done hpq.2, fun hn => ⟨hp, hr'.needed hn⟩⟩

/-- Of a pipeline that comes to an end, everything was possible, and it has led where its passes
lead. -/
theorem Lead.of_completes (h : Lead passes t os p t₁ os₁) {pipeline : Pipeline} {w : Work}
    (hp : pipeline.passes = passes) (hw : w.IsAt t os) (completes : (pipeline.run w).2.fault = none) :
    p ∧ (pipeline.run w).2.IsAt { t₁ with stage := stageAfter passes t.stage } os₁ := by
  have ready := (pipeline.areReady_of_completes completes).1
  rw [hp, hw.tree] at ready
  have hr := h pipeline w t.stage hp ready hw
  exact ⟨hr.needed completes, hr.done (hr.needed completes)⟩

end Pass

end Bindery
