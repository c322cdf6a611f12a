import Bindery.Proofs.Application
import Bindery.Proofs.Lockstep
import Bindery.Proofs.Timing
import Bindery.Proofs.Validation

/-!
# Policies and the order of units

A policy names classes, and a name stands for the first class that defines it. Where no more than one
class does, this is the same class in every order of the units. So a check of the policy comes to the
same in every order, and the policy keeps works in step. Main statements: `Policy.validate_rearranged`,
`Policy.keepsStep_normalize`.
-/

namespace Bindery

namespace Tree

variable {σ : Equiv.Perm Nat} {t t' : Tree}

/-- At most one class of the tree defines what a value names. -/
def IsUnambiguous (t : Tree) (name : Value) : Prop :=
  ∀ s, name.text? = some s → t.survey.countP (isDefinition s) ≤ 1

/-- Relabelled classes define what they defined. -/
theorem IsUnambiguous.relabel {f : Site → Label → Label} {name : Value} (h : t.IsUnambiguous name)
    (hs : t.IsShaped) (hf : t.AgreesUnder f) : (t.relabel f).IsUnambiguous name := by
  intro s text
  rw [survey_relabel, List.countP_map]
  have same : t.survey.countP (isDefinition s ∘ Located.relabel f) =
      t.survey.countP (isDefinition s) :=
    List.countP_congr fun x hx => by rw [Function.comp_apply, isDefinition_relabel hs hf s hx]
  exact same ▸ h s text

namespace Rearranged

variable (h : t.Rearranged σ t')

include h

/-- What only one class defines is that class in any order of units. -/
theorem definition? {name : Value} (unambiguous : t.IsUnambiguous name) :
    t'.definition? name = (t.definition? name).map (Located.move σ) := by
  rw [Tree.definition?, Tree.definition?]
  cases text : name.text? with
  | none => rfl
  | some s =>
    have one := unambiguous s text
    have perm : (t'.survey.filter (isDefinition s)).Perm
        ((t.survey.filter (isDefinition s)).map (Located.move σ)) := h.filter fun x => rfl
    rw [Option.bind_some, Option.bind_some, findCompleteClass?_eq, findCompleteClass?_eq,
      ← List.head?_filter, ← List.head?_filter, ← List.head?_map]
    rw [List.countP_eq_length_filter] at one
    refine congrArg List.head? ?_
    rcases hd : t.survey.filter (isDefinition s) with _ | ⟨x, _ | ⟨y, xs⟩⟩
    · rw [hd] at perm
      exact List.perm_nil.1 perm
    · rw [hd] at perm
      exact List.perm_singleton.1 perm
    · rw [hd] at one
      simp at one

/-- A class that is needed is there in any order of units, or in none. -/
theorem requireClass {name : Value} (unambiguous : t.IsUnambiguous name) (step : String)
    (module : Value) : t'.requireClass step module name =
      (t.requireClass step module name).map (Located.move σ) := by
  have found := h.definition? unambiguous
  rw [Tree.definition?, Tree.definition?] at found
  rw [Tree.requireClass, Tree.requireClass, h.hasNamedClasses, found]
  cases t.hasNamedClasses with
  | false => rfl
  | true =>
    rw [if_pos rfl, if_pos rfl]
    cases name.text?.bind t.findCompleteClass? <;> rfl

end Rearranged

end Tree

namespace Policy

variable {σ : Equiv.Perm Nat} {t t' : Tree} {p : Policy}

/-- The classes that a policy looks up. -/
def lookups (p : Policy) : List Value :=
  (if p.stringClass.isGiven then [p.stringClass] else []) ++ p.typedEnumClasses ++
    p.publicEnums.filterMap (fun entry => entry.map ClassEnum.className) ++
    p.ignoredOperators.map OperatorRemoval.className

/-- The string class is looked up if there is one. -/
theorem mem_lookups_stringClass (given : p.stringClass.isGiven = true) :
    p.stringClass ∈ p.lookups := by
  simp [lookups, given]

/-- Classes with anonymous enumerations are looked up. -/
theorem mem_lookups_typedEnum {name : Value} (h : name ∈ p.typedEnumClasses) :
    name ∈ p.lookups := by
  simp [lookups, h]

/-- Classes with enumerations to be made accessible are looked up. -/
theorem mem_lookups_publicEnum {e : ClassEnum} (h : some e ∈ p.publicEnums) :
    e.className ∈ p.lookups := by
  have listed : e.className ∈
      p.publicEnums.filterMap fun entry => entry.map ClassEnum.className :=
    List.mem_filterMap.2 ⟨_, h, rfl⟩
  simp [lookups, -List.mem_filterMap, listed]

/-- Classes with operators to be dropped are looked up. -/
theorem mem_lookups_operator {removal : OperatorRemoval} (h : removal ∈ p.ignoredOperators) :
    removal.className ∈ p.lookups := by
  have listed := List.mem_map_of_mem (f := OperatorRemoval.className) h
  simp [lookups, -List.mem_map, listed]

/-- Rows of checks come to the same if the checks do. -/
theorem checkAll_congr {α : Type} {check check' : α → Except Fault Unit} {items : List α}
    (same : ∀ a ∈ items, check' a = check a) : checkAll check' items = checkAll check items := by
  induction items with
  | nil => rfl
  | cons a items ih =>
    rw [checkAll, checkAll, same a List.mem_cons_self,
      ih fun b hb => same b (List.mem_cons_of_mem _ hb)]

/-- A check of a policy comes to the same in any order of units. -/
theorem validate_rearranged (h : t.Rearranged σ t')
    (unambiguous : ∀ name ∈ p.lookups, t.IsUnambiguous name) : p.validate t' = p.validate t := by
  have need : ∀ name ∈ p.lookups, t'.requireClass validationStep p.module name =
      (t.requireClass validationStep p.module name).map (Located.move σ) :=
    fun name hn => h.requireClass (unambiguous name hn) validationStep p.module
  have required : ∀ name ∈ p.lookups,
      (t'.requireClass validationStep p.module name).map (fun _ => ()) =
        (t.requireClass validationStep p.module name).map fun _ => () := by
    intro name hn
    rw [need name hn]
    cases t.requireClass validationStep p.module name <;> rfl
  have typed := checkAll_congr fun name hn => required name (mem_lookups_typedEnum (p := p) hn)
  have operators := checkAll_congr fun (removal : OperatorRemoval) hr =>
    required removal.className (mem_lookups_operator (p := p) hr)
  have enums : checkAll (p.checkEnum t') p.publicEnums = checkAll (p.checkEnum t) p.publicEnums := by
    refine checkAll_congr fun entry he => ?_
    cases entry with
    | none => rfl
    | some e =>
      rw [checkEnum, checkEnum, need _ (mem_lookups_publicEnum he)]
      cases t.requireClass validationStep p.module e.className <;> rfl
  rw [validate, validate, typed, operators, enums]
  cases given : p.stringClass.isGiven with
  | false => rfl
  | true =>
    rw [if_pos rfl, if_pos rfl, need _ (mem_lookups_stringClass given)]
    cases t.requireClass validationStep p.module p.stringClass <;> rfl

end Policy

/-! ## Applying a policy -/

namespace Tree

/-- A tree in which names can be read and looked up: declarations are as they are meant to be, and
each name in question is that of one class at most. -/
structure IsReadable (names : List Value) (t : Tree) : Prop where
  /-- Declarations are as they are meant to be. -/
  typed : t.IsTyped
  /-- They stand where they are meant to stand. -/
  shaped : t.IsShaped
  /-- No two classes are defined by one name. -/
  unambiguous : ∀ name ∈ names, t.IsUnambiguous name

variable {names : List Value} {t : Tree}

/-- Names can still be read and looked up when labels agree with those before, if names are texts. -/
theorem IsReadable.relabel (h : t.IsReadable names) {f : Site → Label → Label}
    (agrees : t.AgreesUnder f) (text : ∀ x ∈ t.survey, (f x.site x.label).name.isText = true) :
    (t.relabel f).IsReadable names where
  typed := h.typed.relabel agrees text
  shaped := h.shaped.relabel agrees
  unambiguous name hn := (h.unambiguous name hn).relabel h.shaped agrees

/-- Whether names can be read and looked up is no matter of the stage. -/
theorem IsReadable.atStage (h : t.IsReadable names) {stage : Stage} :
    IsReadable names { t with stage } := ⟨h.typed.atStage, h.shaped.atStage stage, h.unambiguous⟩

end Tree

namespace Site

variable {σ : Equiv.Perm Nat} {s r : Site}

/-- Moved declarations have the same owner as before. -/
@[simp] theorem dropLast_address_move_iff :
    (s.move σ).address.dropLast = (r.move σ).address ↔ s.address.dropLast = r.address := by
  rw [dropLast_address_move]
  exact (modifyHead_injective σ).eq_iff

/-- A member of a moved declaration has the same number as before. -/
theorem address_move_eq_concat_iff (hr : r.address ≠ []) (i : Nat) :
    (s.move σ).address = (r.move σ).address ++ [i] ↔ s.address = r.address ++ [i] := by
  have moved : (r.move σ).address ++ [i] = (r.address ++ [i]).modifyHead σ := by
    obtain ⟨address, scope⟩ := r
    cases address with
    | nil => exact absurd rfl hr
    | cons j rest => rfl
  rw [moved]
  exact (modifyHead_injective σ).eq_iff

end Site

namespace Work

variable {σ : Equiv.Perm Nat} {names : List Value} {w w' : Work}

/-- Relabelling both trees alike keeps works level. -/
theorem Level.relabel (h : w.Level σ (Tree.IsReadable names) w') {f f' : Site → Label → Label}
    (same : ∀ s l, f' (s.move σ) l = f s l) (agrees : w.tree.AgreesUnder f)
    (text : ∀ x ∈ w.tree.survey, (f x.site x.label).name.isText = true) :
    Level σ (Tree.IsReadable names) { w with tree := w.tree.relabel f }
      { w' with tree := w'.tree.relabel f' } :=
  h.withTree (h.tree.relabel same) (h.holds.relabel agrees text)

end Work

namespace Policy

variable {σ : Equiv.Perm Nat} {p : Policy} {names : List Value} {w w' : Work}

/-- Marking value types keeps works level. -/
theorem setValueTypes_level (h : w.Level σ (Tree.IsReadable names) w') :
    (p.setValueTypes w).Level σ (Tree.IsReadable names) (p.setValueTypes w') := by
  have free : Tally.IsFree "value_types" := by decide
  refine (h.relabel (fun s l => ?_) (fun x _ => ?_) fun x hx => ?_).countSome free ?_
  · rfl
  · split
    · exact agrees_markValue x.label
    · exact .refl x.label
  · have named := (h.holds.typed.labels x hx).named
    split
    · rwa [name_markValue]
    · exact named
  · have same : ∀ n, (w'.tree.findClasses n).length = (w.tree.findClasses n).length := by
      intro n
      rw [Tree.findClasses, Tree.findClasses, ← List.countP_eq_length_filter,
        ← List.countP_eq_length_filter]
      exact h.tree.countP fun x => rfl
    simp only [same]

/-- Suppressing declarations keeps works level. -/
theorem suppress_level (h : w.Level σ (Tree.IsReadable names) w') {q q' : Site → Label → Prop}
    [∀ s l, Decidable (q s l)] [∀ s l, Decidable (q' s l)]
    (same : ∀ s l, q' (s.move σ) l ↔ q s l) :
    Work.Level σ (Tree.IsReadable names)
      { w with tree := w.tree.relabel fun s l => if q s l then l.suppress else l }
      { w' with tree := w'.tree.relabel fun s l => if q' s l then l.suppress else l } := by
  refine h.relabel (fun s l => by simp only [same]) (fun x _ => ?_) fun x hx => ?_
  · split
    · exact x.label.agrees_suppress
    · exact .refl x.label
  · rw [apply_ite Label.name, Label.suppress, ite_self]
    exact (h.holds.typed.labels x hx).named

/-- Suppressing a method that no module binds keeps works level. -/
theorem ignoreUnbound_level (method : String × String) (h : w.Level σ (Tree.IsReadable names) w') :
    (ignoreUnbound method w).Level σ (Tree.IsReadable names) (ignoreUnbound method w') :=
  (suppress_level h (q := fun s l => isUnbound method s l = true) fun _ _ => Iff.rfl).countSome
    (by decide) (h.tree.countP fun _ => rfl)

/-- A class that is looked up is there for both works, or for none. -/
theorem requireClass_level (h : w.Level σ (Tree.IsReadable names) w') {name : Value}
    (hn : name ∈ names) : w'.tree.requireClass applicationStep p.module name =
      (w.tree.requireClass applicationStep p.module name).map (Located.move σ) :=
  h.tree.requireClass (h.holds.unambiguous name hn) _ _

/-- Specializing the string class keeps works in step. -/
theorem specializeString_inStep (h : w.Level σ (Tree.IsReadable names) w')
    (hn : p.stringClass ∈ names) :
    (p.specializeString w).InStep σ (Tree.IsReadable names) (p.specializeString w') := by
  refine Work.InStep.require (requireClass_level h hn) fun c _ => ?_
  split
  · refine ((suppress_level h (q := fun s l =>
      s.address ≠ [] ∧ s.address.dropLast = c.site.address ∧ (!p.isKept l) = true)
        fun s l => ?_).countSome (by decide) rfl).inStep
    simp
  · exact .of_fault rfl rfl

/-- Specializing the string class, if there is one, keeps works in step. -/
theorem specialize_inStep (h : w.Level σ (Tree.IsReadable p.lookups) w') :
    (if p.stringClass.isGiven then p.specializeString w else w).InStep σ
      (Tree.IsReadable p.lookups)
      (if p.stringClass.isGiven then p.specializeString w' else w') := by
  split
  · next given => exact specializeString_inStep h (mem_lookups_stringClass given)
  · exact h.inStep

/-- Naming the anonymous enumerations of a class keeps works in step, if they are named by a text. -/
theorem nameTypedEnums_inStep (text : p.typedEnumName.isText = true) {className : Value}
    (hn : className ∈ names) (h : w.Level σ (Tree.IsReadable names) w') :
    (p.nameTypedEnums className w).InStep σ (Tree.IsReadable names)
      (p.nameTypedEnums className w') := by
  refine Work.InStep.require (requireClass_level h hn) fun c _ => ?_
  refine ((h.relabel (fun s l => ?_) (fun x _ => ?_) fun x hx => ?_).countSome
    (by decide) rfl).inStep
  · simp
  · split
    · next asked =>
      refine ⟨rfl, rfl, rfl, fun opened => ?_⟩
      have enumeration := asked.2.2
      rw [isAnonymousEnum, Bool.and_eq_true, Bool.and_eq_true] at enumeration
      rw [Form.isOpen_of_isEnumeration enumeration.1.2] at opened
      cases opened
    · exact .refl x.label
  · split
    · exact text
    · exact (h.holds.typed.labels x hx).named

/-- Making an enumeration accessible keeps works in step. -/
theorem publishEnum_inStep {entry : Option ClassEnum}
    (hn : ∀ e, entry = some e → e.className ∈ names) (h : w.Level σ (Tree.IsReadable names) w') :
    (p.publishEnum entry w).InStep σ (Tree.IsReadable names) (p.publishEnum entry w') := by
  cases entry with
  | none => exact .of_fault rfl rfl
  | some e =>
    rw [publishEnum, publishEnum]
    refine Work.InStep.require (requireClass_level h (hn e rfl)) fun c hc => ?_
    rw [Located.decl_move]
    split
    · next i _ =>
      refine ((h.relabel (fun s l => ?_) (fun x _ => ?_) fun x hx => ?_).count
        (by decide) 1).inStep
      · have hr := Tree.address_ne_nil (Tree.mem_of_definition? (Tree.definition?_of_requireClass hc)).1
        simp only [Located.site_move, Site.address_move_eq_concat_iff hr]
      · split
        · exact agrees_publish x.label
        · exact .refl x.label
      · rw [apply_ite Label.name, ite_self]
        exact (h.holds.typed.labels x hx).named
    · exact .of_fault rfl rfl

/-- Dropping an operator keeps works in step. -/
theorem ignoreOperator_inStep {removal : OperatorRemoval} (hn : removal.className ∈ names)
    (h : w.Level σ (Tree.IsReadable names) w') :
    (p.ignoreOperator removal w).InStep σ (Tree.IsReadable names) (p.ignoreOperator removal w') := by
  refine Work.InStep.require (requireClass_level h hn) fun c hc => ?_
  refine Work.InStep.require (f := id) ?_ fun _ _ => ?_
  · rw [Located.decl_move]
    cases c.decl.operators removal.operator <;> rfl
  · rw [Located.decl_move]
    split
    · next i _ =>
      have hr := Tree.address_ne_nil (Tree.mem_of_definition? (Tree.definition?_of_requireClass hc)).1
      exact ((suppress_level h (q := fun s _ => s.address = c.site.address ++ [i])
        fun s _ => Site.address_move_eq_concat_iff hr i).count (by decide) 1).inStep
    · exact h.inStep

/-- Naming the anonymous enumerations of all classes keeps works in step, if they are named by a
text. -/
theorem typed_inStep (text : p.typedEnumName.isText = true)
    (h : w.Level σ (Tree.IsReadable p.lookups) w') :
    (w.forEach p.typedEnumClasses p.nameTypedEnums).InStep σ (Tree.IsReadable p.lookups)
      (w'.forEach p.typedEnumClasses p.nameTypedEnums) := by
  refine Work.InStep.forEach p.typedEnumClasses (fun name hn _ _ h => ?_) h.inStep
  exact nameTypedEnums_inStep text (mem_lookups_typedEnum hn) h

/-- Making all enumerations accessible keeps works in step. -/
theorem published_inStep (h : w.Level σ (Tree.IsReadable p.lookups) w') :
    (w.forEach p.publicEnums p.publishEnum).InStep σ (Tree.IsReadable p.lookups)
      (w'.forEach p.publicEnums p.publishEnum) := by
  refine Work.InStep.forEach p.publicEnums (fun entry he _ _ h => ?_) h.inStep
  refine publishEnum_inStep ?_ h
  rintro e rfl
  exact mem_lookups_publicEnum he

/-- Dropping all operators keeps works in step. -/
theorem operators_inStep (h : w.Level σ (Tree.IsReadable p.lookups) w') :
    (w.forEach p.ignoredOperators p.ignoreOperator).InStep σ (Tree.IsReadable p.lookups)
      (w'.forEach p.ignoredOperators p.ignoreOperator) := by
  refine Work.InStep.forEach p.ignoredOperators (fun removal hr _ _ h => ?_) h.inStep
  exact ignoreOperator_inStep (mem_lookups_operator hr) h

/-- Applying a policy keeps works in step, if what it looks up is unambiguous. -/
theorem keepsStep_normalize (text : p.typedEnumName.isText = true) :
    (Pass.normalize p).KeepsStep σ (Tree.IsReadable p.lookups) (Tree.IsReadable p.lookups) := by
  intro w w' h
  change (p.apply w).InStep σ _ (p.apply w')
  rw [apply, apply, h.tree.hasNamedClasses]
  split
  · rw [applyAll, applyAll]
    have unbound := (p.setValueTypes_level h).forEach unboundMethods fun method _ _ _ h =>
      ignoreUnbound_level method h
    exact (((specialize_inStep unbound).andThen (typed_inStep text)).andThen
      published_inStep).andThen operators_inStep
  · exact .of_fault rfl rfl

end Policy

end Bindery
