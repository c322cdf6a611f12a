import Bindery.Proofs.Directives

/-!
# Applying a policy, exactly

Every directive, wherever it has its turn, does what the tree before the first directive says it
will. So a policy relabels a tree if everything that it names is there, and stops otherwise. Main
statement: `Policy.apply_turned`.
-/

namespace Bindery

namespace Policy

open Work

variable {p : Policy} {t : Tree} {os : List Outcome} {f : Site → Label → Label} {w : Work}

/-- Labels that agree still do when some are modified. -/
theorem agreesUnder_modify {modify : Label → Label} (hm : ∀ l : Label, l.Agrees (modify l))
    (hf : t.AgreesUnder f) (asked : Site → Label → Bool) :
    t.AgreesUnder fun s l => if asked s l then modify (f s l) else f s l := by
  intro x hx
  dsimp only
  split
  · exact (hf x hx).trans (hm _)
  · exact hf x hx

/-- A value type is still the same class. -/
theorem agrees_markValue (l : Label) : l.Agrees (markValue l) := by
  rw [markValue]
  split
  · next traits hf => exact ⟨rfl, rfl, by rw [hf]; rfl, fun _ => rfl⟩
  · exact .refl l

/-- An accessible declaration is still the same declaration. -/
theorem agrees_publish (l : Label) : l.Agrees { l with access := .publicAccess } :=
  ⟨rfl, rfl, rfl, fun _ => rfl⟩

/-- The step that marks value types. -/
theorem setValueTypes_stands (hs : t.IsShaped) (hf : t.AgreesUnder f) (hw : w.Stands t os f) :
    (p.setValueTypes w).Stands t os fun s l =>
      if p.makesValue s l then markValue (f s l) else f s l := by
  refine hw.relabel (g := fun s l => if p.makesValue s l then markValue l else l) rfl rfl rfl
    fun x hx => ?_
  rw [makesValue_relabel hs hf hx]

/-- The step that suppresses a method that no module binds. -/
theorem ignoreUnbound_turned (hs : t.IsShaped) (hf : t.AgreesUnder f) (method : String × String)
    (hw : w.Stands t os f) :
    (ignoreUnbound method w).Turned t os True fun s l =>
      if isUnbound method s l then (f s l).suppress else f s l := by
  refine Stands.turned (hw.relabel (g := fun s l => if isUnbound method s l then l.suppress else l)
    rfl rfl rfl fun x hx => ?_) trivial
  rw [isUnbound_relabel hs hf hx]

/-- A class of a relabelled tree that is needed by name. -/
theorem requireClass_stands (hs : t.IsShaped) (hf : t.AgreesUnder f) (hw : w.Stands t os f)
    (hn : t.hasNamedClasses = true) (name : Value) :
    w.tree.requireClass applicationStep p.module name =
      match t.definition? name with
      | some c => .ok (c.relabel f)
      | none => .error (.missingDeclaration applicationStep p.module name.display) := by
  rw [hw.tree, Tree.requireClass_eq ((Tree.hasNamedClasses_relabel hs hf).trans hn),
    Tree.definition?_relabel hs hf]
  cases t.definition? name <;> rfl

/-- The step that suppresses the members of the string class that are not kept. -/
theorem specializeString_turned (hs : t.IsShaped) (hf : t.AgreesUnder f) (hw : w.Stands t os f)
    (hn : t.hasNamedClasses = true) (hg : p.stringClass.isGiven = true) :
    (p.specializeString w).Turned t os ((t.definition? p.stringClass).isSome = true ∧
        p.stringKeptMethods.all Value.isSimple = true) fun s l =>
      if p.drops t s l then (f s l).suppress else f s l := by
  rw [specializeString, requireClass_stands hs hf hw hn]
  cases hd : t.definition? p.stringClass with
  | none => exact turned_of_stopped (by simp [Work.require, Work.stop]) (by simp)
  | some c =>
    change Turned t os _ _ (if p.stringKeptMethods.all Value.isSimple = true then _ else _)
    split
    · next hk =>
      refine Stands.turned (hw.relabel (g := fun s l =>
        if s.address ≠ [] ∧ s.address.dropLast = c.site.address ∧ !p.isKept l then l.suppress
        else l) rfl rfl rfl fun x hx => ?_) ⟨rfl, hk⟩
      simp only [drops, hg, hd, Site.isMemberOf, isKept_of_agrees (hf x hx),
        Site.address_relabel, Bool.true_and, Option.any_some, Bool.and_eq_true,
        decide_eq_true_eq, and_assoc]
    · next hk => exact turned_of_stopped (by simp [Work.stop]) (by simp [hk])

/-- The step that suppresses the members of the string class, if there is one. -/
theorem specialize_turned (hs : t.IsShaped) (hf : t.AgreesUnder f) (hw : w.Stands t os f)
    (hn : t.hasNamedClasses = true) :
    (if p.stringClass.isGiven then p.specializeString w else w).Turned t os
      (p.stringClass.isGiven = true → (t.definition? p.stringClass).isSome = true ∧
        p.stringKeptMethods.all Value.isSimple = true) fun s l =>
      if p.drops t s l then (f s l).suppress else f s l := by
  cases hg : p.stringClass.isGiven with
  | false =>
    refine Stands.turned (hw.congr fun x _ => ?_) nofun
    simp [drops, hg]
  | true =>
    exact (specializeString_turned hs hf hw hn hg).congr (by simp)

/-- Whether a class has the declaration at a site for an anonymous enumeration. -/
def asksForName (t : Tree) (className : Value) (s : Site) (l : Label) : Bool :=
  isAnonymousEnum l && (decide (s.address ≠ []) &&
    (t.definition? className).any fun c => c.site.address == s.address.dropLast)

/-- Labels while enumerations get their names: what was anonymous may have the new name already. -/
structure IsNaming (p : Policy) (t : Tree) (f : Site → Label → Label) : Prop where
  /-- The labels agree. -/
  agrees : t.AgreesUnder f
  /-- A name is new only if there was none. -/
  name : ∀ x ∈ t.survey, (f x.site x.label).name = x.label.name ∨
    isAnonymousEnum x.label = true ∧ (f x.site x.label).name = p.typedEnumName

/-- Labels that have kept their names are ready for new ones. -/
theorem isNaming_of_names (hf : t.AgreesUnder f) (hn : ∀ s l, (f s l).name = l.name) :
    IsNaming p t f := ⟨hf, fun x _ => Or.inl (hn x.site x.label)⟩

/-- Enumerations get their names one class after the other. -/
theorem IsNaming.modify (h : IsNaming p t f) {asked : Site → Label → Bool}
    (ha : ∀ s l, asked s l = true → isAnonymousEnum l = true) :
    IsNaming p t fun s l => if asked s l then { f s l with name := p.typedEnumName } else f s l where
  agrees x hx := by
    dsimp only
    split
    · next hq =>
      refine (h.agrees x hx).trans ⟨rfl, rfl, rfl, fun ho => ?_⟩
      have he := ha _ _ hq
      rw [isAnonymousEnum, Bool.and_eq_true, Bool.and_eq_true] at he
      rw [(h.agrees x hx).isOpen, Form.isOpen_of_isEnumeration he.1.2] at ho
      cases ho
    · exact h.agrees x hx
  name x hx := by
    dsimp only
    split
    · next hq => exact Or.inr ⟨ha _ _ hq, rfl⟩
    · exact h.name x hx

/-- Naming what is anonymous by now names what was anonymous before. -/
theorem IsNaming.name_eq (h : IsNaming p t f) {x : Located} (hx : x ∈ t.survey) :
    (if isAnonymousEnum (f x.site x.label) then
        { f x.site x.label with name := p.typedEnumName }
      else f x.site x.label) =
      if isAnonymousEnum x.label then { f x.site x.label with name := p.typedEnumName }
      else f x.site x.label := by
  have ha := h.agrees x hx
  rcases h.name x hx with hn | ⟨hq, hn⟩
  · have he : isAnonymousEnum (f x.site x.label) = isAnonymousEnum x.label := by
      rw [isAnonymousEnum, isAnonymousEnum, ha.role, ha.isEnumeration, hn]
    rw [he]
  · have he : { f x.site x.label with name := p.typedEnumName } = f x.site x.label := by
      rw [← hn]
    rw [he, ite_self, ite_self]

/-- The step that names the anonymous enumerations of a class. -/
theorem nameTypedEnums_turned (hs : t.IsShaped) (hf : IsNaming p t f) (hw : w.Stands t os f)
    (hn : t.hasNamedClasses = true) (className : Value) :
    (p.nameTypedEnums className w).Turned t os ((t.definition? className).isSome = true) fun s l =>
      if asksForName t className s l then { f s l with name := p.typedEnumName } else f s l := by
  rw [nameTypedEnums, requireClass_stands hs hf.agrees hw hn]
  cases hd : t.definition? className with
  | none => exact turned_of_stopped (by simp [Work.require, Work.stop]) (by simp)
  | some c =>
    refine Stands.turned (hw.relabel (g := fun s l =>
      if s.address ≠ [] ∧ s.address.dropLast = c.site.address ∧ isAnonymousEnum l then
        { l with name := p.typedEnumName } else l) rfl rfl rfl fun x hx => ?_) rfl
    have he := hf.name_eq hx
    by_cases hm : x.site.address ≠ [] ∧ x.site.address.dropLast = c.site.address
    · have hq : asksForName t className x.site x.label = isAnonymousEnum x.label := by
        simp [asksForName, hd, hm.1, hm.2]
      rw [hq, ← he]
      simp [hm.1, hm.2]
    · have hq : asksForName t className x.site x.label = false := by
        rw [asksForName, hd, Option.any_some]
        by_cases ha : x.site.address = []
        · simp [ha]
        · have : c.site.address ≠ x.site.address.dropLast := fun h => hm ⟨ha, h.symm⟩
          simp [this]
      rw [hq, if_neg, if_neg (by simp)]
      rintro ⟨h1, h2, -⟩
      exact hm ⟨h1, h2⟩

/-- Labels once the enumerations have their names. -/
structure IsNamed (p : Policy) (t : Tree) (f : Site → Label → Label) : Prop where
  /-- The labels agree. -/
  agrees : t.AgreesUnder f
  /-- Every enumeration has the name that it was to get. -/
  name : ∀ x ∈ t.survey, x.label.form.isEnumeration = true → (f x.site x.label).name =
    p.typedName (p.namesEnumsOf t x.site.address.dropLast) x.label

/-- What enumerations are called does not change when they are made accessible. -/
theorem IsNamed.publish (h : IsNamed p t f) (asked : Site → Label → Bool) :
    IsNamed p t fun s l => if asked s l then { f s l with access := .publicAccess } else f s l where
  agrees := agreesUnder_modify agrees_publish h.agrees asked
  name x hx he := by
    dsimp only
    split <;> exact h.name x hx he

/-- What is asked for by the classes with anonymous enumerations together. -/
theorem any_asksForName (s : Site) (l : Label) :
    p.typedEnumClasses.any (asksForName t · s l) = p.namesEnum t s l := by
  rw [Bool.eq_iff_iff]
  simp only [List.any_eq_true, asksForName, namesEnum, namesEnumsOf, Bool.and_eq_true]
  constructor
  · rintro ⟨name, hm, ha, hs, hc⟩
    exact ⟨ha, hs, name, hm, hc⟩
  · rintro ⟨ha, hs, name, hm, hc⟩
    exact ⟨name, hm, ha, hs, hc⟩

/-- Only what is anonymous is asked to get a name. -/
theorem isAnonymousEnum_of_any {classNames : List Value} {s : Site} {l : Label}
    (h : classNames.any (asksForName t · s l) = true) : isAnonymousEnum l = true := by
  obtain ⟨name, -, hq⟩ := List.any_eq_true.1 h
  rw [asksForName, Bool.and_eq_true] at hq
  exact hq.1

/-- Once all classes had their turn, the enumerations have their names. -/
theorem isNamed_of_names (hf : t.AgreesUnder f) (hn : ∀ s l, (f s l).name = l.name) :
    IsNamed p t fun s l => if p.typedEnumClasses.any (asksForName t · s l) then
      { f s l with name := p.typedEnumName } else f s l where
  agrees := (IsNaming.modify (isNaming_of_names hf hn) fun _ _ hq =>
    isAnonymousEnum_of_any hq).agrees
  name x hx _ := by
    dsimp only
    rw [any_asksForName, namesEnum, typedName]
    have hne := Tree.address_ne_nil hx
    simp only [hne, ne_eq, not_false_eq_true, decide_true, Bool.true_and]
    split
    · rfl
    · exact hn _ _

/-- The step that makes an enumeration accessible. -/
theorem publishEnum_turned (hs : t.IsShaped) (hf : IsNamed p t f) (hw : w.Stands t os f)
    (hn : t.hasNamedClasses = true) (entry : Option ClassEnum) :
    (p.publishEnum entry w).Turned t os ((p.publishedAt? t entry).isSome = true) fun s l =>
      if p.publishedAt? t entry == some s.address then { f s l with access := .publicAccess }
      else f s l := by
  cases entry with
  | none => exact turned_of_stopped (by simp [publishEnum, Work.stop]) (by simp [publishedAt?])
  | some e =>
    rw [publishEnum, requireClass_stands hs hf.agrees hw hn, publishedAt?, Option.bind_some]
    cases hd : t.definition? e.className with
    | none => exact turned_of_stopped (by simp [Work.require, Work.stop]) (by simp)
    | some c =>
      have hi := memberIndex?_relabel (f := f) (Tree.mem_of_definition? hd).1
        (fun l => l.role == .nested && l.form.isEnumeration && l.name.alike e.enumName)
        (p.isEnumToPublish t c e) fun y hy hyc => by
          rw [isEnumToPublish, (hf.agrees y hy).role, (hf.agrees y hy).isEnumeration]
          cases he : y.label.form.isEnumeration with
          | false => simp
          | true => rw [hf.name y hy he, hyc]
      dsimp only [Work.require]
      have hi' : memberIndex? (c.relabel f).decl (fun m => m.role == .nested &&
          m.form.isEnumeration && m.name.alike e.enumName) =
            memberIndex? c.decl fun m => p.isEnumToPublish t c e m.label := hi
      rw [hi', Option.bind_some]
      cases memberIndex? c.decl fun m => p.isEnumToPublish t c e m.label with
      | none => exact turned_of_stopped (by simp [Work.stop]) (by simp)
      | some i =>
        refine Stands.turned (hw.relabel (g := fun s l => if s.address = c.site.address ++ [i] then
          { l with access := .publicAccess } else l) rfl rfl rfl fun x hx => ?_) rfl
        rw [Option.map_some, Site.address_relabel]
        by_cases ha : c.site.address ++ [i] = x.site.address
        · simp [ha]
        · simp [ha, Ne.symm ha]

/-- Only methods stand among the methods of a class of a shaped tree. -/
theorem exists_operators (hs : t.IsShaped) {x : Located} (hx : x ∈ t.survey)
    (kind : OperatorKind) : ∃ ds, x.decl.operators kind = .ok ds := by
  rw [Decl.operators]
  cases hm : x.decl.methods.find? fun m => !m.form.isMethod with
  | none => exact ⟨_, rfl⟩
  | some m =>
    have hmem := List.mem_of_find?_eq_some hm
    have hno := List.find?_some hm
    obtain ⟨hmm, hr⟩ := List.mem_filter.1 hmem
    obtain ⟨i, hi⟩ := List.getElem?_of_mem hmm
    have hy := Tree.member_mem_survey hx hi
    have hmeth := hs.methods _ hy (beq_iff_eq.1 hr) (by simp [Located.chain, Site.chain])
    rw [Located.label_member] at hmeth
    have hno : m.label.form.isMethod = false := by simpa [Decl.form] using hno
    rw [hmeth] at hno
    cases hno

/-- The step that suppresses an operator. -/
theorem ignoreOperator_turned (hs : t.IsShaped) (hf : t.AgreesUnder f) (hw : w.Stands t os f)
    (hn : t.hasNamedClasses = true) (removal : OperatorRemoval) :
    (p.ignoreOperator removal w).Turned t os
      ((t.definition? removal.className).isSome = true) fun s l =>
        if removal.picks t s then (f s l).suppress else f s l := by
  rw [ignoreOperator]
  dsimp only
  rw [requireClass_stands hs hf hw hn]
  cases hd : t.definition? removal.className with
  | none => exact turned_of_stopped (by simp [Work.require, Work.stop]) (by simp)
  | some c =>
    have hc := (Tree.mem_of_definition? hd).1
    obtain ⟨ds, hds⟩ := exists_operators (hs.relabel hf)
      (Tree.mem_survey_relabel.2 ⟨c, hc, rfl⟩) removal.operator
    have hi := memberIndex?_relabel (f := f) hc
      (fun l => OperatorRemoval.applies removal (.node l []))
      (fun l => OperatorRemoval.applies removal (.node l [])) fun y hy _ =>
        applies_of_agrees removal (hf y hy)
    rw [← applies_eq] at hi
    dsimp only [Work.require]
    rw [hds]
    dsimp only
    rw [hi]
    cases hm : memberIndex? c.decl (OperatorRemoval.applies removal) with
    | none =>
      refine (hw.congr fun x hx => ?_).turned rfl
      simp [OperatorRemoval.picks, hd, hm]
    | some i =>
      refine Stands.turned (hw.relabel (g := fun s l =>
        if s.address = c.site.address ++ [i] then l.suppress else l) rfl rfl rfl
          fun x hx => ?_) rfl
      by_cases ha : x.site.address = c.site.address ++ [i] <;>
        simp [OperatorRemoval.picks, hd, hm, ha]

/-! ## All directives -/

variable (p : Policy) (t : Tree) (s : Site) (l : Label)

/-- The label after value types are marked. -/
def afterValues : Label := if p.makesValue s l then markValue l else l

/-- The label after the methods that no module binds are suppressed. -/
def afterUnbound : Label :=
  if unboundMethods.any (isUnbound · s l) then (p.afterValues s l).suppress else p.afterValues s l

/-- The label after the string class is specialized. -/
def afterString : Label :=
  if p.drops t s l then (p.afterUnbound s l).suppress else p.afterUnbound s l

/-- The label after enumerations got their names. -/
def afterNaming : Label :=
  if p.typedEnumClasses.any (asksForName t · s l) then
    { p.afterString t s l with name := p.typedEnumName }
  else p.afterString t s l

/-- The label after enumerations were made accessible. -/
def afterPublishing : Label :=
  if p.publicEnums.any (fun e => p.publishedAt? t e == some s.address) then
    { p.afterNaming t s l with access := .publicAccess }
  else p.afterNaming t s l

/-- The label after operators are suppressed. -/
def afterOperators : Label :=
  if p.ignoredOperators.any (OperatorRemoval.picks · t s) then (p.afterPublishing t s l).suppress
  else p.afterPublishing t s l

/-- The directives lead to the label under the policy: in whatever order it is modified, a label
ends up the same. -/
theorem afterOperators_eq : p.afterOperators t s l = p.labelUnder t s l := by
  have anyOrder : ∀ (valued : Label) (unbound dropped named published picked : Bool),
      (let unbounds := if unbound then valued.suppress else valued
       let droppeds := if dropped then unbounds.suppress else unbounds
       let nameds := if named then { droppeds with name := p.typedEnumName } else droppeds
       let publisheds := if published then { nameds with access := .publicAccess } else nameds
       if picked then publisheds.suppress else publisheds) =
      (let nameds := if named then { valued with name := p.typedEnumName } else valued
       let publisheds := if published then { nameds with access := .publicAccess } else nameds
       if unbound || dropped || picked then publisheds.suppress else publisheds) := by
    intro valued unbound dropped named published picked
    cases unbound <;> cases dropped <;> cases named <;> cases published <;> cases picked <;> rfl
  rw [afterOperators, afterPublishing, afterNaming, any_asksForName]
  exact anyOrder _ _ _ _ _ _

/-- A value type keeps its name. -/
theorem name_markValue : (markValue l).name = l.name := by
  rw [markValue]
  split <;> rfl

/-- Until enumerations get their names, every declaration keeps its own. -/
theorem name_afterString : (p.afterString t s l).name = l.name := by
  simp only [afterString, afterUnbound, afterValues, apply_ite Label.name, Label.suppress,
    name_markValue, ite_self]

/-- Marking value types keeps labels agreeing. -/
theorem agreesUnder_afterValues : t.AgreesUnder p.afterValues :=
  agreesUnder_modify agrees_markValue (fun x _ => .refl x.label) p.makesValue

/-- Suppressing methods that no module binds keeps labels agreeing. -/
theorem agreesUnder_afterUnbound : t.AgreesUnder p.afterUnbound :=
  agreesUnder_modify Label.agrees_suppress (p.agreesUnder_afterValues t) _

/-- Specializing the string class keeps labels agreeing. -/
theorem agreesUnder_afterString : t.AgreesUnder (p.afterString t) :=
  agreesUnder_modify Label.agrees_suppress (p.agreesUnder_afterUnbound t) _

/-- Enumerations have their names once all classes had their turn. -/
theorem isNamed_afterNaming : p.IsNamed t (p.afterNaming t) :=
  isNamed_of_names (p.agreesUnder_afterString t) (p.name_afterString t)

variable {p t s l}

/-- Suppressing all methods that no module binds. -/
theorem unbound_stands (hs : t.IsShaped) (hw : w.Stands t os p.afterValues) :
    (w.forEach unboundMethods ignoreUnbound).Stands t os p.afterUnbound := by
  refine (hw.forEach_modify (fun _ => True) isUnbound Label.suppress (fun _ => rfl)
    (fun done method w hw => ?_) unboundMethods).done fun _ _ => trivial
  exact ignoreUnbound_turned hs (agreesUnder_modify Label.agrees_suppress
    (p.agreesUnder_afterValues t) fun s l => done.any (isUnbound · s l)) method hw

/-- Naming the anonymous enumerations of all classes. -/
theorem typed_turned (hs : t.IsShaped) (hw : w.Stands t os (p.afterString t))
    (hn : t.hasNamedClasses = true) :
    (w.forEach p.typedEnumClasses p.nameTypedEnums).Turned t os
      (∀ name ∈ p.typedEnumClasses, (t.definition? name).isSome = true) (p.afterNaming t) := by
  refine hw.forEach_modify _ (asksForName t) (fun l => { l with name := p.typedEnumName })
    (fun _ => rfl) (fun done className w hw => ?_) p.typedEnumClasses
  refine nameTypedEnums_turned hs ?_ hw hn className
  exact (isNaming_of_names (p.agreesUnder_afterString t) (p.name_afterString t)).modify
    fun _ _ => isAnonymousEnum_of_any

/-- Making all enumerations accessible. -/
theorem published_turned (hs : t.IsShaped) (hw : w.Stands t os (p.afterNaming t))
    (hn : t.hasNamedClasses = true) :
    (w.forEach p.publicEnums p.publishEnum).Turned t os
      (∀ e ∈ p.publicEnums, (p.publishedAt? t e).isSome = true) (p.afterPublishing t) := by
  refine hw.forEach_modify _ (fun e s _ => p.publishedAt? t e == some s.address)
    (fun l => { l with access := .publicAccess })
    (fun _ => rfl) (fun done entry w hw => ?_) p.publicEnums
  exact publishEnum_turned hs ((p.isNamed_afterNaming t).publish fun s _ =>
    done.any fun e => p.publishedAt? t e == some s.address) hw hn entry

/-- Suppressing all operators. -/
theorem operators_turned (hs : t.IsShaped) (hw : w.Stands t os (p.afterPublishing t))
    (hn : t.hasNamedClasses = true) :
    (w.forEach p.ignoredOperators p.ignoreOperator).Turned t os
      (∀ removal ∈ p.ignoredOperators, (t.definition? removal.className).isSome = true)
      (p.afterOperators t) := by
  have agreed : t.AgreesUnder (p.afterPublishing t) := ((p.isNamed_afterNaming t).publish _).agrees
  refine hw.forEach_modify _ (fun removal s _ => removal.picks t s) Label.suppress
    (fun _ => rfl) (fun done removal w hw => ?_) p.ignoredOperators
  exact ignoreOperator_turned hs (agreesUnder_modify Label.agrees_suppress agreed
    fun s _ => done.any (OperatorRemoval.picks · t s)) hw hn removal

/-- A policy relabels a shaped tree if everything that it names is there, and stops otherwise. -/
theorem apply_turned (p : Policy) {w : Work} (hs : w.tree.IsShaped) (hw : w.fault = none) :
    (p.apply w).Turned w.tree w.outcomes (p.IsApplicable w.tree) (p.labelUnder w.tree) := by
  rw [apply]
  cases hn : w.tree.hasNamedClasses with
  | false =>
    exact turned_of_stopped (by simp [Work.stop]) fun h => absurd h.named (by simp [hn])
  | true =>
    have valued : (p.setValueTypes w).Stands w.tree w.outcomes p.afterValues :=
      setValueTypes_stands hs (fun x _ => .refl x.label) (stands_self hw)
    have dropped := specialize_turned (p := p) hs (p.agreesUnder_afterUnbound w.tree)
      (unbound_stands hs valued) hn
    have picked := ((dropped.andThen fun _ hw => typed_turned hs hw hn).andThen
      fun _ hw => published_turned hs hw hn).andThen fun _ hw => operators_turned hs hw hn
    rw [show p.labelUnder w.tree = p.afterOperators w.tree from
      funext fun s => funext fun l => (p.afterOperators_eq w.tree s l).symm]
    refine picked.congr ⟨fun h => ⟨hn, h.1.1.1, h.1.1.2, h.1.2, h.2⟩, fun h => ?_⟩
    exact ⟨⟨⟨h.string, h.typed⟩, h.published⟩, h.operators⟩

end Policy

end Bindery
