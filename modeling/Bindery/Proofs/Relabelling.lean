import Bindery.Proofs.Agreement
import Bindery.Proofs.Origin
import Bindery.Pass
import Mathlib.Logic.Relation

/-!
# Passes that relabel

Every pass but those for events leaves the shape of a tree alone: it maps labels, and there are only
a few things that it may do to a label. Whatever these spare is spared by all of these passes, also
by one that stops on its way. Main statements: `Pass.work_relabels`, `Located.MayEdit.agrees`.
-/

namespace Bindery

/-- Scopes are not renamed. -/
theorem RenameTarget.ofForm?_of_isScope {f : Form} (h : f.isScope = true) : ofForm? f = none := by
  cases f <;> first | rfl | simp [Form.isScope] at h

/-- Marking value types sets no tags. -/
theorem Policy.tags_markValue (l : Label) :
    (markValue l).suppression = l.suppression ∧ (markValue l).treatment = l.treatment := by
  rw [markValue]
  split <;> exact ⟨rfl, rfl⟩

/-- A label that a pass which adds nothing may give to a declaration. -/
inductive Located.MayEdit (x : Located) : Label → Prop
  /-- The label stays as it is. -/
  | keep : MayEdit x x.label
  /-- It is suppressed. -/
  | suppress : MayEdit x x.label.suppress
  /-- It is linked. -/
  | link : MayEdit x { x.label with treatment := .link }
  /-- What is ignored is given the treatment of it. -/
  | ignore (ignored : x.isIgnored = true) : MayEdit x { x.label with treatment := .ignore }
  /-- A class becomes a value type. -/
  | markValue : MayEdit x (Policy.markValue x.label)
  /-- An anonymous enumeration gets a name. -/
  | nameEnum (name : Value) (anonymous : Policy.isAnonymousEnum x.label = true) :
    MayEdit x { x.label with name }
  /-- It is made accessible. -/
  | publish : MayEdit x { x.label with access := .publicAccess }
  /-- It gets another comment. -/
  | comment (comment : Value) : MayEdit x { x.label with comment }
  /-- The name of what is generated is recased. -/
  | recase (pattern : CasePattern) (name : Value) (converted : pattern.convert x.label.name = .ok name)
    (generated : x.isGenerated = true)
    (target : (RenameTarget.ofForm? x.label.form).isSome = true) : MayEdit x { x.label with name }

namespace Located.MayEdit

variable {x : Located} {l : Label}

/-- Something may be suppressed under a condition. -/
theorem suppress_if (x : Located) (c : Prop) [Decidable c] :
    x.MayEdit (if c then x.label.suppress else x.label) := by
  split
  · exact .suppress
  · exact .keep

/-- An edited label is that of the same declaration. -/
theorem agrees (h : x.MayEdit l) : x.label.Agrees l := by
  cases h with
  | keep => exact .refl _
  | suppress => exact x.label.agrees_suppress
  | link => exact ⟨rfl, rfl, rfl, fun _ => rfl⟩
  | ignore => exact ⟨rfl, rfl, rfl, fun _ => rfl⟩
  | markValue =>
    rw [Policy.markValue]
    split
    · next traits hf =>
      refine ⟨rfl, rfl, ?_, fun _ => rfl⟩
      rw [hf]
      rfl
    · exact .refl _
  | nameEnum name anonymous =>
    rw [Policy.isAnonymousEnum, Bool.and_eq_true, Bool.and_eq_true] at anonymous
    refine ⟨rfl, rfl, rfl, fun ho => absurd ho ?_⟩
    rw [Form.isOpen_of_isEnumeration anonymous.1.2]
    simp
  | publish => exact ⟨rfl, rfl, rfl, fun _ => rfl⟩
  | comment => exact ⟨rfl, rfl, rfl, fun _ => rfl⟩
  | recase pattern name converted generated target =>
    refine ⟨rfl, rfl, rfl, fun ho => ?_⟩
    rw [RenameTarget.ofForm?_of_isScope (Form.isScope_of_isOpen ho)] at target
    cases target

end Located.MayEdit

namespace Tree

/-- All labels of a tree are edited at once. -/
inductive Relabel (t : Tree) : Tree → Prop
  /-- Labels are mapped to such as they may get. -/
  | intro (f : Site → Label → Label) (h : ∀ x ∈ t.survey, x.MayEdit (f x.site x.label)) :
    Relabel t (t.relabel f)

/-- All labels of a tree are edited any number of times. -/
abbrev Relabels : Tree → Tree → Prop := Relation.ReflTransGen Relabel

/-- One relabelling. -/
theorem Relabels.once {t : Tree} (f : Site → Label → Label)
    (h : ∀ x : Located, x.MayEdit (f x.site x.label)) : t.Relabels (t.relabel f) :=
  Relation.ReflTransGen.single (.intro f fun x _ => h x)

end Tree

/-! ## Steps of a pass -/

namespace Work

variable {r : Tree → Tree → Prop}

/-- A step that goes on only if there was no fault changes the tree as the step does. -/
theorem steps_andThen (w : Work) {next : Work → Work}
    (h : Relation.ReflTransGen r w.tree (next w).tree) :
    Relation.ReflTransGen r w.tree (w.andThen next).tree := by
  rw [andThen]
  split
  · exact h
  · exact .refl

/-- Steps for every item change the tree as the steps do. -/
theorem steps_forEach {α : Type} (items : List α) {step : α → Work → Work}
    (h : ∀ a (w : Work), Relation.ReflTransGen r w.tree (step a w).tree) (w : Work) :
    Relation.ReflTransGen r w.tree (w.forEach items step).tree := by
  induction items generalizing w with
  | nil => exact .refl
  | cons a items ih =>
    exact (steps_andThen w (h a w)).trans (ih (w.andThen (step a)))

/-- A step that needs something changes the tree as the step does. -/
theorem steps_require {α : Type} (w : Work) (found : Except Fault α) {next : α → Work → Work}
    (h : ∀ a, Relation.ReflTransGen r w.tree (next a w).tree) :
    Relation.ReflTransGen r w.tree (w.require found next).tree := by
  cases found with
  | ok a => exact h a
  | error fault => exact .refl

@[simp] theorem tree_count (w : Work) (key : String) (amount : Nat) :
    (w.count key amount).tree = w.tree := rfl

@[simp] theorem tree_stopAt (w : Work) (stop : Option Stop) : (w.stopAt stop).tree = w.tree := by
  cases stop <;> rfl

/-- A step that leaves the tree alone does so whether it is taken or not. -/
theorem tree_andThen (w : Work) {next : Work → Work} (h : (next w).tree = w.tree) :
    (w.andThen next).tree = w.tree := by
  rw [andThen]
  split
  · exact h
  · rfl

/-- A step that needs something and leaves the tree alone does so with or without it. -/
theorem tree_require {α : Type} (w : Work) (found : Except Fault α) {next : α → Work → Work}
    (h : ∀ a, (next a w).tree = w.tree) : (w.require found next).tree = w.tree := by
  cases found with
  | ok a => exact h a
  | error fault => rfl

end Work

/-! ## Passes that set tags -/

/-- Classification suppresses and links. -/
theorem classify_relabels (root : WrittenPath) (marks : PrivateMarks) (w : Work) :
    w.tree.Relabels (classify root marks w).tree := by
  obtain ⟨stop, -, ht⟩ := classify_tree root marks w
  rw [ht]
  refine Tree.Relabels.once _ fun x => ?_
  rw [originLabelUpTo, originLabel]
  split
  · split
    · exact .keep
    · exact .link
    · exact .suppress_if x _
  · exact .keep

namespace Policy

/-- Classes become value types. -/
theorem setValueTypes_relabels (p : Policy) (w : Work) :
    w.tree.Relabels (p.setValueTypes w).tree := by
  refine Tree.Relabels.once _ fun x => ?_
  split
  · exact .markValue
  · exact .keep

/-- Methods that no module binds are suppressed. -/
theorem ignoreUnbound_relabels (method : String × String) (w : Work) :
    w.tree.Relabels (ignoreUnbound method w).tree :=
  Tree.Relabels.once _ fun x => .suppress_if x _

/-- Members of the string class are suppressed. -/
theorem specializeString_relabels (p : Policy) (w : Work) :
    w.tree.Relabels (p.specializeString w).tree := by
  refine w.steps_require _ fun found => ?_
  split
  · exact Tree.Relabels.once _ fun x => .suppress_if x _
  · exact .refl

/-- Anonymous enumerations get names. -/
theorem nameTypedEnums_relabels (p : Policy) (className : Value) (w : Work) :
    w.tree.Relabels (p.nameTypedEnums className w).tree := by
  refine w.steps_require _ fun found => ?_
  refine Tree.Relabels.once _ fun x => ?_
  split
  · next h => exact .nameEnum _ h.2.2
  · exact .keep

/-- Enumerations are made accessible. -/
theorem publishEnum_relabels (p : Policy) (entry : Option ClassEnum) (w : Work) :
    w.tree.Relabels (p.publishEnum entry w).tree := by
  cases entry with
  | none => exact .refl
  | some e =>
    refine w.steps_require _ fun found => ?_
    split
    · refine Tree.Relabels.once _ fun x => ?_
      split
      · exact .publish
      · exact .keep
    · exact .refl

/-- Operators are suppressed. -/
theorem ignoreOperator_relabels (p : Policy) (removal : OperatorRemoval) (w : Work) :
    w.tree.Relabels (p.ignoreOperator removal w).tree := by
  refine w.steps_require _ fun found => w.steps_require _ fun _ => ?_
  split
  · exact Tree.Relabels.once _ fun x => .suppress_if x _
  · exact .refl

/-- A policy relabels the tree, however far it gets. -/
theorem apply_relabels (p : Policy) (w : Work) : w.tree.Relabels (p.apply w).tree := by
  rw [apply]
  split
  · refine (p.setValueTypes_relabels w).trans ?_
    refine (Work.steps_forEach unboundMethods ignoreUnbound_relabels _).trans ?_
    refine Relation.ReflTransGen.trans ?_ (Relation.ReflTransGen.trans (Work.steps_andThen _
      (Work.steps_forEach p.typedEnumClasses p.nameTypedEnums_relabels _))
        (Relation.ReflTransGen.trans (Work.steps_andThen _
          (Work.steps_forEach p.publicEnums p.publishEnum_relabels _))
          (Work.steps_andThen _
            (Work.steps_forEach p.ignoredOperators p.ignoreOperator_relabels _))))
    split
    · exact p.specializeString_relabels _
    · exact .refl
  · exact .refl

end Policy

/-- Resolution ignores what is ignored. -/
theorem resolve_relabels (w : Work) : w.tree.Relabels (resolve w).tree := by
  refine Tree.Relabels.once _ fun x => ?_
  rw [resolvedLabel]
  split
  · next h =>
    rw [isInherited, Bool.and_eq_true] at h
    exact .ignore h.2
  · exact .keep

/-! ## Passes that leave tags alone -/

/-- Clearing comments changes comments. -/
theorem clearComments_relabels (w : Work) : w.tree.Relabels (clearComments w).tree :=
  Tree.Relabels.once _ fun _ => .comment .null

/-- Attaching documentation changes comments, however far it gets. -/
theorem backfillComments_relabels (corpus : Corpus) (w : Work) :
    w.tree.Relabels (backfillComments corpus w).tree := by
  rw [backfillComments, Work.tree_stopAt]
  refine Tree.Relabels.once _ fun x => ?_
  rw [documentedLabel]
  split
  · split
    · split
      · exact .comment _
      · exact .keep
    · exact .keep
  · exact .keep

/-- Renaming recases names, however far it gets. -/
theorem rename_relabels (targets : List RenameTarget) (pattern : CasePattern) (w : Work) :
    w.tree.Relabels (rename targets pattern w).tree := by
  rw [rename, Work.tree_stopAt]
  refine Tree.Relabels.once _ fun x => ?_
  rw [renamedLabel]
  split
  · split
    · next h =>
      rw [isRenameable, Bool.and_eq_true, Bool.and_eq_true] at h
      split
      · next converted => exact .recase pattern _ converted h.2 (Option.isSome_of_any h.1.1)
      · exact .keep
    · exact .keep
  · exact .keep

/-- Running a tool leaves the tree alone. -/
theorem tree_runTool (tool : Value) (arguments : List String) (directory : String) (w : Work) :
    (runTool tool arguments directory w).tree = w.tree := by
  cases tool with
  | text program =>
    rw [runTool]
    split <;> rfl
  | _ => rfl

/-- Building the library of inline functions leaves the tree alone. -/
theorem tree_buildInlines (r : InlinesRequest) (w : Work) : (buildInlines r w).tree = w.tree := by
  refine w.tree_require _ fun directory => w.tree_require _ fun projectFile => ?_
  rw [Work.tree_andThen _ (tree_runTool _ _ _ _), tree_runTool]

/-- Requesting the library of inline functions leaves the tree alone. -/
theorem tree_requestInlines (r : InlinesRequest) (hasBuilder : Bool) (w : Work) :
    (requestInlines r hasBuilder w).tree = w.tree := by
  refine w.tree_require _ fun libraryPath => ?_
  dsimp only
  split
  · rw [Work.tree_andThen _ (Work.tree_count _ _ _), tree_buildInlines]
  · rfl

namespace Pass

/-- The rule by which a pass attaches events to a tree, if it attaches any. -/
def eventRule? (t : Tree) : Pass → Option EventRule
  | signalEvents options => some options.rule
  | hookEvents options => some (options.rule t.baseIndex)
  | undefinedEvents => some undefinedRule
  | _ => none

/-- A pass that attaches no events relabels the tree, however far it gets. -/
theorem work_relabels {pass : Pass} {w : Work} (h : pass.eventRule? w.tree = none) :
    w.tree.Relabels (pass.work w).tree := by
  cases pass with
  | origin root marks => exact classify_relabels root marks w
  | normalize policy => exact policy.apply_relabels w
  | resolve => exact resolve_relabels w
  | clearComments => exact clearComments_relabels w
  | backfillComments corpus => exact backfillComments_relabels corpus w
  | rename targets pattern => exact rename_relabels targets pattern w
  | signalEvents options => cases h
  | hookEvents options => cases h
  | requestInlines request hasBuilder =>
    rw [work, tree_requestInlines]
  | undefined => exact .refl
  | undefinedEvents => cases h

end Pass

end Bindery
