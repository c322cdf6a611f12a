import Bindery.Proofs.Validation

/-!
# Operators that a policy removes

For each removal of a policy, the operators of a class are gone through until one is found that the
removal is meant for; this one is suppressed, and the others are not looked at. Which one it is does
not depend on what has been suppressed so far, in whatever tree. So, after all removals, just those
operators are suppressed that come first in their class for one of them, and an operator that comes
later stays as it was. Main statement: `Policy.suppresses_first_operators`.
-/

namespace Bindery

namespace OperatorRemoval

/-- Whether a removal is meant for a member of its class: an operator of the kind whose first
parameter has the bare type. -/
def IsMeantFor (removal : OperatorRemoval) (m : Decl) : Prop :=
  m.role = .method ∧ ∃ signature traits first rest, m.form = .method signature traits ∧
    traits.operator = removal.operator ∧ signature.parameters = first :: rest ∧
    removal.parameterType = .text (TypeSpelling.bare first.type)

/-- Whether a declaration is the first member of a class that a removal is meant for. -/
def IsFirstIn (removal : OperatorRemoval) (c x : Located) : Prop :=
  ∃ i m, c.decl.members[i]? = some m ∧ x = c.member i m ∧ removal.IsMeantFor m ∧
    ∀ j < i, ∀ d, c.decl.members[j]? = some d → ¬ removal.IsMeantFor d

end OperatorRemoval

/-- Whether a declaration is the first operator of a class that one of the removals is meant for. -/
def Policy.Removes (p : Policy) (t : Tree) (x : Located) : Prop :=
  ∃ removal ∈ p.ignoredOperators, ∃ c, t.definition? removal.className = some c ∧
    removal.IsFirstIn c x

namespace OperatorRemoval

variable {removal : OperatorRemoval} {t : Tree} {c x : Located}

/-- Among the methods, an operator of a class is told by its form. -/
theorem applies_iff {m : Decl} :
    Policy.OperatorRemoval.applies removal m = true ↔ removal.IsMeantFor m := by
  obtain ⟨l, ms⟩ := m
  rw [Policy.OperatorRemoval.applies, Bool.and_eq_true, Bool.and_eq_true, beq_iff_eq, IsMeantFor,
    and_assoc]
  refine and_congr_right fun _ => ?_
  rw [Decl.isOperator]
  cases hf : (Decl.node l ms).form with
  | method signature traits =>
    rw [Form.methodTraits?, Form.signature?, Option.any_some, Option.bind_some, beq_iff_eq]
    cases hp : signature.parameters with
    | nil => simp [hp]
    | cons first rest =>
      simp only [List.head?_cons, Option.any_some, beq_iff_eq]
      constructor
      · rintro ⟨kind, type⟩
        exact ⟨signature, traits, first, rest, rfl, kind, hp, type.symm⟩
      · rintro ⟨_, _, _, _, same, kind, hq, type⟩
        cases same
        rw [hp] at hq
        cases hq
        exact ⟨kind, type.symm⟩
  | _ => simp [Form.methodTraits?]

/-- What a removal picks is the first member of the class that it is meant for. -/
theorem picks_iff (hx : x ∈ t.survey) : removal.picks t x.site = true ↔
    ∃ c, t.definition? removal.className = some c ∧ removal.IsFirstIn c x := by
  rw [picks, Option.any_eq_true]
  refine exists_congr fun c => and_congr_right fun hc => ?_
  rw [Option.any_eq_true, IsFirstIn, Policy.memberIndex?]
  refine exists_congr fun i => ?_
  rw [List.findIdx?_eq_some_iff_getElem, beq_iff_eq]
  constructor
  · rintro ⟨⟨hi, applies, before⟩, address⟩
    have there := List.getElem?_eq_getElem hi
    refine ⟨c.decl.members[i], there, ?_, applies_iff.1 applies, fun j hj d hd meant => ?_⟩
    · exact Tree.eq_of_address_eq hx
        (Tree.member_mem_survey (Tree.mem_of_definition? hc).1 there) address
    · obtain ⟨_, rfl⟩ := List.getElem?_eq_some_iff.1 hd
      exact before j hj (applies_iff.2 meant)
  · rintro ⟨m, hm, rfl, meant, before⟩
    obtain ⟨hi, rfl⟩ := List.getElem?_eq_some_iff.1 hm
    refine ⟨⟨hi, applies_iff.2 meant, fun j hj applies => ?_⟩, rfl⟩
    exact before j hj _ (List.getElem?_eq_getElem (hj.trans hi)) (applies_iff.1 applies)

/-- If a removal is meant for a member of a class, it is meant for a first one. -/
theorem exists_isFirstIn {m : Decl} (hm : m ∈ c.decl.members) (meant : removal.IsMeantFor m) :
    ∃ x, removal.IsFirstIn c x := by
  cases hi : c.decl.members.findIdx? (Policy.OperatorRemoval.applies removal) with
  | none =>
    have other := List.findIdx?_eq_none_iff.1 hi m hm
    rw [applies_iff.2 meant] at other
    cases other
  | some i =>
    obtain ⟨hi, applies, before⟩ := List.findIdx?_eq_some_iff_getElem.1 hi
    refine ⟨_, i, _, List.getElem?_eq_getElem hi, rfl, applies_iff.1 applies, ?_⟩
    intro j hj d hd meant
    obtain ⟨_, rfl⟩ := List.getElem?_eq_some_iff.1 hd
    exact before j hj (applies_iff.2 meant)

end OperatorRemoval

/-! ## Suppressing some declarations -/

/-- The label of a declaration once those at some sites are suppressed. -/
def Label.suppressing (asked : Site → Bool) (s : Site) (l : Label) : Label :=
  if asked s then l.suppress else l

/-- What suppression does not touch stays in a chain. -/
theorem Chain.map_suppressing {β : Type} {g : Label → β} (h : ∀ l : Label, g l.suppress = g l)
    (asked : Site → Bool) (address : List Nat) (c : Chain) :
    (Chain.relabel (Label.suppressing asked) address c).map g = c.map g := by
  induction c generalizing address with
  | nil => rfl
  | cons l outer ih =>
    rw [Chain.relabel, List.map_cons, List.map_cons, ih, Label.suppressing, apply_ite g, h, ite_self]

/-- Suppression leaves full names as they are. -/
theorem Chain.qualifiedName_suppressing (asked : Site → Bool) (address : List Nat) (c : Chain) :
    (Chain.relabel (Label.suppressing asked) address c).qualifiedName = c.qualifiedName := by
  have shown : ∀ c : Chain, c.qualifiedName = "::".intercalate
      (((c.map fun l => (l.form.isUnit, l.name.display)).takeWhile fun e => !e.1).map
        Prod.snd).reverse := by
    intro c
    rw [qualifiedName, belowUnit, List.map_reverse, List.takeWhile_map, List.map_map]
    rfl
  rw [shown, shown, Chain.map_suppressing fun _ => rfl]

/-- To suppress once and again is to suppress what either asks for. -/
theorem Label.suppressing_suppressing (asked asked' : Site → Bool) (s s' : Site) (l : Label) :
    suppressing asked' s' (suppressing asked s l) =
      if asked s || asked' s' then l.suppress else l := by
  rw [suppressing, suppressing]
  cases asked s <;> cases asked' s' <;> rfl

namespace Tree

variable {t : Tree} (asked : Site → Bool)

/-- Some declarations of a tree are suppressed and still the same declarations. -/
theorem agreesUnder_suppressing : t.AgreesUnder (Label.suppressing asked) :=
  Policy.agreesUnder_modify Label.agrees_suppress (fun x _ => .refl x.label) fun s _ => asked s

/-- Suppression leaves it as it is what a name stands for. -/
theorem definition?_suppressing (name : Value) :
    (t.relabel (Label.suppressing asked)).definition? name =
      (t.definition? name).map (Located.relabel (Label.suppressing asked)) := by
  rw [definition?, definition?]
  cases name.text? with
  | none => rfl
  | some s =>
    rw [Option.bind_some, Option.bind_some, findCompleteClass?_eq, findCompleteClass?_eq,
      survey_relabel, List.find?_map]
    refine congrArg (Option.map _) (find?_congr_mem fun x _ => ?_)
    have form : (Label.suppressing asked x.site x.label).form = x.label.form := by
      rw [Label.suppressing, apply_ite Label.form, Label.suppress, ite_self]
    rw [Function.comp_apply, isDefinition, isDefinition, Located.label_relabel, form,
      Located.qualifiedName, Located.chain_relabel, Chain.qualifiedName_suppressing]
    rfl

/-- Suppression leaves it as it is which operator a removal picks. -/
theorem picks_suppressing (removal : OperatorRemoval) (s : Site) :
    removal.picks (t.relabel (Label.suppressing asked)) (s.relabel (Label.suppressing asked)) =
      removal.picks t s := by
  rw [OperatorRemoval.picks, OperatorRemoval.picks, definition?_suppressing, Option.any_map]
  cases hd : t.definition? removal.className with
  | none => rfl
  | some c =>
    have number := Policy.memberIndex?_relabel (f := Label.suppressing asked)
      (mem_of_definition? hd).1
      (fun l => Policy.OperatorRemoval.applies removal (.node l []))
      (fun l => Policy.OperatorRemoval.applies removal (.node l [])) fun y hy _ =>
        Policy.applies_of_agrees removal (agreesUnder_suppressing asked y hy)
    rw [← Policy.applies_eq] at number
    rw [Option.any_some, Option.any_some]
    exact congrArg (Option.any _) number

/-- What is ignored after suppression was ignored before, or is below what was suppressed. -/
theorem isIgnored_suppressing {x : Located} (hx : x ∈ t.survey) :
    (x.relabel (Label.suppressing asked)).isIgnored = true ↔
      x.isIgnored = true ∨
        ∃ z ∈ t.survey, z.site.address <+: x.site.address ∧ asked z.site = true := by
  have out : ∀ z : Located, (z.relabel (Label.suppressing asked)).label.isOut = true ↔
      z.label.isOut = true ∨ asked z.site = true := by
    intro z
    rw [Located.label_relabel, Label.suppressing]
    cases asked z.site <;> simp
  rw [isIgnored_iff (mem_survey_relabel.2 ⟨x, hx, rfl⟩), isIgnored_iff hx, ← exists_or]
  constructor
  · rintro ⟨y, hy, above, hout⟩
    obtain ⟨z, hz, rfl⟩ := mem_survey_relabel.1 hy
    exact ⟨z, ((out z).1 hout).imp (fun h => ⟨hz, above, h⟩) fun h => ⟨hz, above, h⟩⟩
  · rintro ⟨z, ⟨hz, above, h⟩ | ⟨hz, above, h⟩⟩
    · exact ⟨_, mem_survey_relabel.2 ⟨z, hz, rfl⟩, above, (out z).2 (Or.inl h)⟩
    · exact ⟨_, mem_survey_relabel.2 ⟨z, hz, rfl⟩, above, (out z).2 (Or.inr h)⟩

end Tree

/-! ## Removing operators -/

/-- Work that has not stopped has gone on. -/
theorem Work.andThen_of_fault {w : Work} {next : Work → Work} (h : (w.andThen next).fault = none) :
    w.andThen next = next w := by
  rw [andThen] at h ⊢
  split at h
  · rfl
  · next hw =>
    rw [hw] at h
    cases h

namespace Policy

variable {p : Policy} {w : Work}

/-- A removal suppresses what it picks, and needs its class. -/
theorem tree_ignoreOperator {removal : OperatorRemoval}
    (done : (p.ignoreOperator removal w).fault = none) :
    (w.tree.definition? removal.className).isSome = true ∧ (p.ignoreOperator removal w).tree =
      w.tree.relabel (Label.suppressing (removal.picks w.tree)) := by
  rw [ignoreOperator] at done ⊢
  dsimp only at done ⊢
  cases hr : w.tree.requireClass applicationStep p.module removal.className with
  | error fault =>
    rw [hr] at done
    cases done
  | ok c =>
    rw [hr] at done
    have hd := Tree.definition?_of_requireClass hr
    refine ⟨Option.isSome_of_eq_some hd, ?_⟩
    dsimp only [Work.require] at done ⊢
    cases ho : c.decl.operators removal.operator with
    | error fault =>
      rw [ho] at done
      cases done
    | ok ds =>
      dsimp only
      cases hi : memberIndex? c.decl (OperatorRemoval.applies removal) with
      | none =>
        refine (Tree.relabel_eq_self_iff.2 fun x _ => ?_).symm
        rw [Label.suppressing, OperatorRemoval.picks, hd, Option.any_some, hi, Option.any_none]
        rfl
      | some i =>
        refine Tree.relabel_congr fun x _ => ?_
        rw [Label.suppressing, OperatorRemoval.picks, hd, Option.any_some, hi, Option.any_some]
        simp only [beq_iff_eq]

/-- Removals suppress what each of them picks in the tree as it was before the first. -/
theorem tree_forEach_ignoreOperator {removals : List OperatorRemoval}
    (done : (w.forEach removals p.ignoreOperator).fault = none) :
    (∀ removal ∈ removals, (w.tree.definition? removal.className).isSome = true) ∧
      (w.forEach removals p.ignoreOperator).tree = w.tree.relabel
        (Label.suppressing fun s => removals.any (OperatorRemoval.picks · w.tree s)) := by
  induction removals generalizing w with
  | nil => exact ⟨nofun, (Tree.relabel_eq_self_iff.2 fun _ _ => rfl).symm⟩
  | cons removal rest ih =>
    rw [Work.forEach, List.foldl_cons] at done ⊢
    change ((w.andThen (p.ignoreOperator removal)).forEach rest p.ignoreOperator).fault = none at done
    change _ ∧ ((w.andThen (p.ignoreOperator removal)).forEach rest p.ignoreOperator).tree = _
    -- The first removal did not stop, since stopped work stays stopped.
    have first : (w.andThen (p.ignoreOperator removal)).fault = none := by
      by_contra stopped
      rw [Work.forEach_of_stopped rest _ stopped] at done
      exact stopped done
    have running := Work.andThen_of_fault first
    rw [running] at first done ⊢
    obtain ⟨defined, tree⟩ := tree_ignoreOperator first
    obtain ⟨others, later⟩ := ih done
    rw [tree] at others later
    refine ⟨List.forall_mem_cons.2 ⟨defined, fun other ho => ?_⟩, ?_⟩
    · have found := others other ho
      rwa [Tree.definition?_suppressing, Option.isSome_map] at found
    · rw [later, Tree.relabel_relabel]
      refine Tree.relabel_congr fun x _ => ?_
      rw [Label.suppressing_suppressing, Label.suppressing, List.any_cons]
      simp only [Tree.picks_suppressing]

/-- Whether a policy removes a declaration can be told from what its removals pick before anything
is suppressed. -/
theorem removes_suppressing {t : Tree} (asked : Site → Bool) {x : Located} (hx : x ∈ t.survey) :
    p.Removes (t.relabel (Label.suppressing asked)) (x.relabel (Label.suppressing asked)) ↔
      p.ignoredOperators.any (OperatorRemoval.picks · t x.site) = true := by
  rw [Removes, List.any_eq_true]
  refine exists_congr fun removal => and_congr_right fun _ => ?_
  rw [← OperatorRemoval.picks_iff (Tree.mem_survey_relabel.2 ⟨x, hx, rfl⟩), Located.site_relabel,
    Tree.picks_suppressing]

/-- The removals of a policy come last: what is done before is what the policy does without them. -/
theorem apply_eq_andThen (p : Policy) (w : Work) :
    p.apply w = (apply { p with ignoredOperators := [] } w).andThen fun w =>
      w.forEach p.ignoredOperators p.ignoreOperator := by
  rw [apply, apply]
  cases w.tree.hasNamedClasses with
  | false => rfl
  | true =>
    have same : ∀ w : Work, w.andThen (fun w => w) = w := by
      intro w
      rw [Work.andThen]
      split <;> rfl
    rw [if_pos rfl, if_pos rfl]
    refine congrArg (fun w : Work => w.andThen fun w =>
      w.forEach p.ignoredOperators p.ignoreOperator) ?_
    exact (same _).symm

/-- After a policy was applied without a fault, the class of each of its removals is there, and the
first operator in it that the removal is meant for is ignored. Compared with what the policy does
without its removals, nothing else has changed: every declaration that is first for no removal has
the label that it had, also an operator that a removal is meant for; and nothing else is ignored
than what was, and what these operators own. -/
theorem suppresses_first_operators {p : Policy} {w : Work}
    (done : ((Pass.normalize p).work w).fault = none) :
    let earlier := ((Pass.normalize { p with ignoredOperators := [] }).work w).tree
    let later := ((Pass.normalize p).work w).tree
    (∀ removal ∈ p.ignoredOperators, ∃ c, later.definition? removal.className = some c ∧
      ∀ m ∈ c.decl.members, removal.IsMeantFor m →
        ∃ y ∈ later.survey, removal.IsFirstIn c y ∧ y.isIgnored = true) ∧
    ∀ y ∈ later.survey, ∃ x ∈ earlier.survey, x.site.address = y.site.address ∧
      (p.Removes later y → y.label = x.label.suppress) ∧
      (¬ p.Removes later y → y.label = x.label) ∧
      (y.isIgnored = true ↔ x.isIgnored = true ∨
        ∃ z ∈ later.survey, z.site.address <+: y.site.address ∧ p.Removes later z) := by
  intro earlier later
  have split := p.apply_eq_andThen w
  change (p.apply w).fault = none at done
  rw [split] at done
  have last := Work.andThen_of_fault done
  rw [last] at done split
  obtain ⟨defined, tree⟩ := tree_forEach_ignoreOperator done
  -- The sites that are asked for are fixed by the tree before the removals.
  obtain ⟨asked, picked, eq⟩ : ∃ asked : Site → Bool,
      (∀ s, asked s = p.ignoredOperators.any (OperatorRemoval.picks · earlier s)) ∧
        later = earlier.relabel (Label.suppressing asked) :=
    ⟨_, fun _ => rfl, (congrArg Work.tree split).trans tree⟩
  have removes : ∀ x ∈ earlier.survey,
      (p.Removes later (x.relabel (Label.suppressing asked)) ↔ asked x.site = true) := by
    intro x hx
    rw [eq, removes_suppressing asked hx, picked]
  have ignored : ∀ y ∈ later.survey, p.Removes later y → y.isIgnored = true := by
    intro y hy hr
    rw [eq] at hy
    obtain ⟨x, hx, rfl⟩ := Tree.mem_survey_relabel.1 hy
    exact (Tree.isIgnored_suppressing asked hx).2
      (Or.inr ⟨x, hx, List.prefix_refl _, (removes x hx).1 hr⟩)
  refine ⟨fun removal hr => ?_, fun y hy => ?_⟩
  · obtain ⟨c, hc⟩ := Option.isSome_iff_exists.1 (defined removal hr)
    have hc' : later.definition? removal.className =
        some (c.relabel (Label.suppressing asked)) := by
      rw [eq, Tree.definition?_suppressing]
      exact congrArg (Option.map _) hc
    refine ⟨_, hc', fun m hm meant => ?_⟩
    obtain ⟨y, first⟩ := OperatorRemoval.exists_isFirstIn hm meant
    have hy : y ∈ later.survey := by
      obtain ⟨i, m, hm, rfl, -⟩ := first
      exact Tree.member_mem_survey (Tree.mem_of_definition? hc').1 hm
    exact ⟨y, hy, first, ignored y hy ⟨removal, hr, _, hc', first⟩⟩
  · have hy' := hy
    rw [eq] at hy'
    obtain ⟨x, hx, rfl⟩ := Tree.mem_survey_relabel.1 hy'
    refine ⟨x, hx, rfl, fun hr => ?_, fun hr => ?_, ?_⟩
    · rw [Located.label_relabel, Label.suppressing, if_pos ((removes x hx).1 hr)]
    · rw [Located.label_relabel, Label.suppressing, if_neg fun ha => hr ((removes x hx).2 ha)]
    · rw [Tree.isIgnored_suppressing asked hx]
      refine or_congr_right ⟨?_, ?_⟩
      · rintro ⟨z, hz, above, ha⟩
        refine ⟨z.relabel (Label.suppressing asked), ?_, above, (removes z hz).2 ha⟩
        rw [eq]
        exact Tree.mem_survey_relabel.2 ⟨z, hz, rfl⟩
      · rintro ⟨z', hz', above, hr⟩
        rw [eq] at hz'
        obtain ⟨z, hz, rfl⟩ := Tree.mem_survey_relabel.1 hz'
        exact ⟨z, hz, above, (removes z hz).1 hr⟩

/-- A header with a class that has two conversions from a number, one of them by reference. -/
def charTree : Tree where
  units := [
    .node { name := .text "qchar.h", headerName := .text "qchar.h",
            form := .unit "include/QtCore/qchar.h" } [
      .node { name := .text "QChar", headerName := .text "QChar",
              form := .classType ⟨[], false, false⟩ } [
        .node { name := .text "QChar", headerName := .text "QChar", role := .method,
                form := .method ⟨[⟨"rc", "int"⟩], "void"⟩
                  ⟨false, false, false, false, .null, .conversion⟩ } [],
        .node { name := .text "QChar", headerName := .text "QChar", role := .method,
                form := .method ⟨[⟨"rc", "int const &"⟩], "void"⟩
                  ⟨false, false, false, false, .null, .conversion⟩ } []]]]

/-- A policy that removes the conversion of that class from a number. -/
def ofChar : Policy where
  ignoredOperators := [⟨.text "QChar", .conversion, .text "int"⟩]

/-- Of the two conversions of the sample, the first is ignored and the second keeps its label. -/
theorem suppresses_first_operators_sample :
    let earlier := ((Pass.normalize { ofChar with ignoredOperators := [] }).work
      { tree := charTree }).tree
    let later := ((Pass.normalize ofChar).work { tree := charTree }).tree
    later.survey.map (·.isIgnored) = [false, false, true, false] ∧
      (∃ c, later.definition? (.text "QChar") = some c ∧
        ∃ y ∈ later.survey, (ofChar.ignoredOperators[0]).IsFirstIn c y ∧ y.isIgnored = true) ∧
      ∀ y ∈ later.survey, ¬ ofChar.Removes later y →
        ∃ x ∈ earlier.survey, x.site.address = y.site.address ∧ y.label = x.label := by
  intro earlier later
  have done : ((Pass.normalize ofChar).work { tree := charTree }).fault = none :=
    Option.isNone_iff_eq_none.1 (by decide +kernel)
  obtain ⟨first, labels⟩ := suppresses_first_operators done
  refine ⟨by decide +kernel, ?_, fun y hy others => ?_⟩
  · obtain ⟨c, hc, first⟩ := first _ List.mem_cons_self
    have members : (later.definition? (.text "QChar")).any fun c =>
        c.decl.members.any (OperatorRemoval.applies ofChar.ignoredOperators[0]) := by
      decide +kernel
    rw [hc, Option.any_some] at members
    obtain ⟨m, hm, applies⟩ := List.any_eq_true.1 members
    exact ⟨c, hc, first m hm (OperatorRemoval.applies_iff.1 applies)⟩
  · obtain ⟨x, hx, address, -, same, -⟩ := labels y hy
    exact ⟨x, hx, address, same others⟩

/-- Not every operator that a removal is meant for is ignored: a second one is left. -/
theorem not_suppresses_every_operator :
    ¬ ∀ (p : Policy) (w : Work), ((Pass.normalize p).work w).fault = none →
      ∀ removal ∈ p.ignoredOperators,
        ∀ c, ((Pass.normalize p).work w).tree.definition? removal.className = some c →
          ∀ i m, c.decl.members[i]? = some m → removal.IsMeantFor m →
            (c.member i m).isIgnored = true := by
  intro h
  have every := h ofChar { tree := charTree } (Option.isNone_iff_eq_none.1 (by decide +kernel)) _
    List.mem_cons_self
  have second : (((Pass.normalize ofChar).work { tree := charTree }).tree.definition?
      (.text "QChar")).any fun c => c.decl.members[1]?.any fun m =>
        OperatorRemoval.applies ofChar.ignoredOperators[0] m && !(c.member 1 m).isIgnored := by
    decide +kernel
  obtain ⟨c, hc, second⟩ := (Option.any_eq_true _ _).1 second
  obtain ⟨m, hm, second⟩ := (Option.any_eq_true _ _).1 second
  rw [Bool.and_eq_true, Bool.not_eq_true'] at second
  have ignored := every c hc 1 m hm (OperatorRemoval.applies_iff.1 second.1)
  rw [second.2] at ignored
  cases ignored

end Policy

end Bindery
