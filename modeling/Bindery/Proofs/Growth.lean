import Bindery.Proofs.Permanence
import Bindery.Proofs.Serving

/-!
# How trees grow

A pass that attaches events by a rule extends the tree: a class gets what its roster has attached,
or nothing where the pass has stopped before. All other passes relabel. So whatever lasts through
relabellings and such extensions lasts through everything that can be done to a tree. Main
statements: `Pass.exists_work_eq_extend`, `Tree.IsLasting.steps`.
-/

namespace Bindery

namespace Tree

variable {t : Tree} {rule : EventRule} {g : Site → Decl → List Decl}

/-- What is appended to a tree are the events that the rosters of classes have attached, all of
them or none for each class. -/
def AttachesUnder (rule : EventRule) (t : Tree) (g : Site → Decl → List Decl) : Prop :=
  ∀ x ∈ t.survey, g x.site x.decl = [] ∨
    isEventful x.site x.label = true ∧ g x.site x.decl = (rule.roster x.site x.decl).attached

/-- What rosters have attached are events of classes that are generated. -/
theorem AttachesUnder.gainsUnder (h : t.AttachesUnder rule g) : t.GainsUnder g := by
  intro x hx e he
  rcases h x hx with hn | ⟨hev, ha⟩
  · rw [hn] at he
    cases he
  · rw [ha] at he
    exact EventRule.mayGain_of_mem_attached hev he

/-- Nothing at all may be appended. -/
theorem attachesUnder_nil (rule : EventRule) (t : Tree) : t.AttachesUnder rule fun _ _ => [] :=
  fun _ _ => Or.inl rfl

end Tree

/-- What is gained is what rosters have attached. -/
theorem EventRule.attachesUnder_gains (rule : EventRule) (t : Tree) :
    t.AttachesUnder rule (rule.gains t) := by
  intro x _
  rw [gains]
  split
  · next h =>
    rw [Bool.and_eq_true] at h
    exact Or.inr ⟨h.1, rfl⟩
  · exact Or.inl rfl

/-- A pass that attaches events by a rule extends the tree by what rosters have attached, however far
it gets. -/
theorem Pass.exists_work_eq_extend {pass : Pass} {w : Work} {rule : EventRule}
    (h : pass.eventRule? w.tree = some rule) : ∃ g, w.tree.AttachesUnder rule g ∧
      (pass.work w).tree = w.tree.extend g := by
  cases pass with
  | signalEvents options =>
    obtain rfl := Option.some.inj h
    exact ⟨_, options.rule.attachesUnder_gains w.tree, tree_attachEvents _ w⟩
  | hookEvents options =>
    obtain rfl := Option.some.inj h
    rw [work, Tree.bases]
    split
    · exact ⟨_, (options.rule w.tree.baseIndex).attachesUnder_gains w.tree, tree_attachEvents _ w⟩
    · refine ⟨_, Tree.attachesUnder_nil _ w.tree, ?_⟩
      exact (Tree.extend_eq_self fun _ _ => rfl).symm
  | undefinedEvents =>
    obtain rfl := Option.some.inj h
    exact ⟨_, undefinedRule.attachesUnder_gains w.tree, tree_attachEvents _ w⟩
  | _ => cases h

namespace Tree

/-- What a tree has for good once it has it. -/
structure IsLasting (P : Tree → Prop) : Prop where
  /-- It is kept at another stage. -/
  advance : ∀ (t : Tree) (stage : Stage), P t → P { t with stage }
  /-- It is kept when labels are edited. -/
  relabel : ∀ {t : Tree} {f : Site → Label → Label},
    (∀ x ∈ t.survey, x.MayEdit (f x.site x.label)) → P t → P (t.relabel f)
  /-- It is kept when classes get their events. -/
  extend : ∀ {t : Tree} {rule : EventRule} {g : Site → Decl → List Decl},
    t.AttachesUnder rule g → P t → P (t.extend g)

/-- What is kept whenever labels are edited at once is kept when they are edited many times. -/
theorem Relabels.keeps {P : Tree → Prop} {t t' : Tree} (h : t.Relabels t')
    (relabel : ∀ {t : Tree} {f : Site → Label → Label},
      (∀ x ∈ t.survey, x.MayEdit (f x.site x.label)) → P t → P (t.relabel f))
    (start : P t) : P t' := by
  induction h with
  | refl => exact start
  | tail _ hstep ih =>
    cases hstep with
    | intro f hf => exact relabel hf ih

namespace IsLasting

variable {P : Tree → Prop}

/-- It is kept by every pass, however far it gets. -/
theorem work (h : IsLasting P) (pass : Pass) (w : Work) (start : P w.tree) :
    P (pass.work w).tree := by
  cases hr : pass.eventRule? w.tree with
  | none => exact (Pass.work_relabels hr).keeps h.relabel start
  | some rule =>
    obtain ⟨g, attaches, ht⟩ := Pass.exists_work_eq_extend hr
    rw [ht]
    exact h.extend attaches start

/-- It is kept by whatever is done to the tree at once. -/
theorem step (h : IsLasting P) {t t' : Tree} (hstep : t.Step t') (start : P t) : P t' := by
  cases hstep with
  | pass pass w hw =>
    subst hw
    exact h.work pass w start
  | pipeline p w hw =>
    subst hw
    exact p.run_keeps h.advance (fun s _ w => h.work s.pass w) w start
  | link address => exact (t.linkAt_relabels address).keeps h.relabel start
  | prune marks address => exact (t.pruneAt_relabels marks address).keeps h.relabel start
  | suppress address => exact (t.suppressAt_relabels address).keeps h.relabel start

/-- It is kept all the time. -/
theorem steps (h : IsLasting P) {t t' : Tree} (hsteps : t.Steps t') (start : P t) : P t' := by
  induction hsteps with
  | refl => exact start
  | tail _ hstep ih => exact h.step hstep ih

end IsLasting

end Tree

end Bindery
