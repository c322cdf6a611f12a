import Bindery.Proofs.Application
import Bindery.Proofs.Settlement

/-!
# What classification, policy and resolution come to

Linking, pruning, the policy and resolution overwrite each other's tags. Together they have a simple
effect: a declaration is ignored if it or an owner was cut off, by its name or by the policy, or was
out already and not linked anew; otherwise it is linked if its unit is foreign, and keeps its
treatment if not. Main statements: `Tree.treatment_settle`, `Tree.suppression_settle`.
-/

namespace Bindery

namespace Tree

variable (root : WrittenPath) (marks : PrivateMarks) (p : Policy) (t : Tree)

/-- The tree after all units are classified. -/
def classified : Tree := t.relabel (originLabel root marks)

/-- The tree after a policy is applied. -/
def normalized : Tree := t.relabel (p.labelUnder t)

/-- The tree after classification, policy and resolution. -/
def settle : Tree := ((t.classified root marks).normalized p).resolve

end Tree

namespace Located

variable (root : WrittenPath) (marks : PrivateMarks) (p : Policy) (t : Tree) (x : Located)

/-- The declaration after its unit is classified. -/
def classified : Located := x.relabel (originLabel root marks)

/-- The declaration after classification and policy. -/
def normalized : Located :=
  (x.classified root marks).relabel (p.labelUnder (t.classified root marks))

/-- The declaration after classification, policy and resolution. -/
def settle : Located := (x.normalized root marks p t).relabel resolvedLabel

/-- Whether classification or the policy suppresses the declaration itself. -/
def isCut : Bool :=
  (x.origin root == .native && Decl.isPruned marks x.site x.label) || p.suppresses t x.site x.label

/-- Whether the declaration itself is out after classification and policy. -/
def isOutAfter : Bool :=
  x.isCut root marks p t || x.label.isSuppressed ||
    (x.origin root != .foreign && x.label.treatment == .ignore)

end Located

namespace Tree

variable {root : WrittenPath} {marks : PrivateMarks} {p : Policy} {t : Tree} {x : Located}

/-- Classification leaves everything but tags alone. -/
theorem agreesUnder_originLabel (root : WrittenPath) (marks : PrivateMarks) (t : Tree) :
    t.AgreesUnder (originLabel root marks) := by
  intro x _
  rw [originLabel]
  split
  · exact .refl _
  · exact ⟨rfl, rfl, rfl, fun _ => rfl⟩
  · split
    · exact x.label.agrees_suppress
    · exact .refl _

/-- A tree is shaped after classification if it was. -/
theorem IsShaped.classified (hs : t.IsShaped) (root : WrittenPath) (marks : PrivateMarks) :
    (t.classified root marks).IsShaped :=
  hs.relabel (agreesUnder_originLabel root marks t)

/-- A policy leaves everything alone that counts for looking classes up. -/
theorem agreesUnder_labelUnder (p : Policy) (t : Tree) : t.AgreesUnder (p.labelUnder t) := by
  have h : t.AgreesUnder (p.afterOperators t) :=
    Policy.agreesUnder_modify Label.agrees_suppress
      ((p.isNamed_afterNaming t).publish _).agrees _
  intro x hx
  rw [← p.afterOperators_eq]
  exact h x hx

/-- Resolution leaves everything but treatments alone. -/
theorem agreesUnder_resolvedLabel (t : Tree) : t.AgreesUnder resolvedLabel := by
  intro x _
  rw [resolvedLabel]
  split
  · exact ⟨rfl, rfl, rfl, fun _ => rfl⟩
  · exact .refl _

/-- The declarations after classification, policy and resolution. -/
theorem mem_survey_settle {y : Located} :
    y ∈ (t.settle root marks p).survey ↔ ∃ x ∈ t.survey, x.settle root marks p t = y := by
  rw [settle, resolve, mem_survey_relabel]
  constructor
  · rintro ⟨z, hz, rfl⟩
    obtain ⟨v, hv, rfl⟩ := mem_survey_relabel.1 hz
    obtain ⟨x, hx, rfl⟩ := mem_survey_relabel.1 hv
    exact ⟨x, hx, rfl⟩
  · rintro ⟨x, hx, rfl⟩
    exact ⟨_, mem_survey_relabel.2 ⟨_, mem_survey_relabel.2 ⟨x, hx, rfl⟩, rfl⟩, rfl⟩

/-- Where a declaration comes from does not change when labels do. -/
theorem origin_relabel (root : WrittenPath) {f : Site → Label → Label} (hf : t.AgreesUnder f)
    (hx : x ∈ t.survey) : (x.relabel f).origin root = x.origin root := by
  rw [Located.origin, (hf.chain x hx).rootPath]
  rfl

/-- Where a declaration comes from does not change. -/
theorem origin_settle (root' : WrittenPath) (hx : x ∈ t.survey) :
    (x.settle root marks p t).origin root' = x.origin root' := by
  have h1 : x.classified root marks ∈ (t.classified root marks).survey :=
    mem_survey_relabel.2 ⟨x, hx, rfl⟩
  have h2 : x.normalized root marks p t ∈ ((t.classified root marks).normalized p).survey :=
    mem_survey_relabel.2 ⟨_, h1, rfl⟩
  exact (origin_relabel root' (agreesUnder_resolvedLabel _) h2).trans
    ((origin_relabel root' (agreesUnder_labelUnder p _) h1).trans
      (origin_relabel root' (agreesUnder_originLabel root marks t) hx))

/-- Classification, policy and resolution leave everything alone that counts for looking classes
up. -/
theorem agrees_settle (hx : x ∈ t.survey) :
    x.label.Agrees (x.settle root marks p t).label := by
  have h1 : x.classified root marks ∈ (t.classified root marks).survey :=
    mem_survey_relabel.2 ⟨x, hx, rfl⟩
  have h2 : x.normalized root marks p t ∈ ((t.classified root marks).normalized p).survey :=
    mem_survey_relabel.2 ⟨_, h1, rfl⟩
  exact ((agreesUnder_originLabel root marks t).label hx).trans
    (((agreesUnder_labelUnder p _).label h1).trans ((agreesUnder_resolvedLabel _).label h2))

/-- The label after classification and policy. -/
theorem label_normalized (x : Located) : (x.normalized root marks p t).label =
    p.labelUnder (t.classified root marks) (x.site.relabel (originLabel root marks))
      (originLabel root marks x.site x.label) := by
  rw [Located.normalized, Located.label_relabel, Located.classified, Located.label_relabel]
  rfl

/-- The policy sees the classified tree as it would have seen the tree before. -/
theorem suppresses_classified (hs : t.IsShaped) (hx : x ∈ t.survey) :
    p.suppresses (t.classified root marks) (x.site.relabel (originLabel root marks))
      (originLabel root marks x.site x.label) = p.suppresses t x.site x.label :=
  Policy.suppresses_relabel hs (agreesUnder_originLabel root marks t) hx

end Tree

namespace Policy

/-- What a policy does to a label, part by part. -/
theorem labelUnder_eq (p : Policy) (t : Tree) (s : Site) (l : Label) :
    p.labelUnder t s l = { l with
      name := if p.namesEnum t s l then p.typedEnumName else l.name
      access := if p.publishes t s then .publicAccess else l.access
      treatment := if p.suppresses t s l then .ignore else l.treatment
      suppression := if p.suppresses t s l then .bool true else l.suppression
      form := if p.makesValue s l then (markValue l).form else l.form } := by
  have marked : markValue l = { l with form := (markValue l).form } := by
    rw [markValue]
    split <;> rfl
  rw [labelUnder]
  cases p.makesValue s l <;> cases p.namesEnum t s l <;> cases p.publishes t s <;>
    cases p.suppresses t s l <;> first | rfl | (rw [marked]; rfl)

/-- A policy marks what it suppresses. -/
theorem suppression_labelUnder (p : Policy) (t : Tree) (s : Site) (l : Label) :
    (p.labelUnder t s l).suppression =
      if p.suppresses t s l then .bool true else l.suppression := by
  rw [labelUnder_eq]

/-- A policy ignores what it suppresses. -/
theorem treatment_labelUnder (p : Policy) (t : Tree) (s : Site) (l : Label) :
    (p.labelUnder t s l).treatment = if p.suppresses t s l then .ignore else l.treatment := by
  rw [labelUnder_eq]

end Policy

/-- Classification marks what it prunes in native units. -/
theorem suppression_originLabel (root : WrittenPath) (marks : PrivateMarks) (x : Located) :
    (originLabel root marks x.site x.label).suppression =
      if x.origin root = .native ∧ Decl.isPruned marks x.site x.label = true then .bool true
      else x.label.suppression := by
  rw [originLabel, show Origin.ofPath root (x.site.chain x.label).rootPath = x.origin root from rfl]
  cases x.origin root with
  | unresolved | foreign => rfl
  | native => cases hp : Decl.isPruned marks x.site x.label <;> simp [Label.suppress]

/-- Classification links foreign declarations and ignores what it prunes in native units. -/
theorem treatment_originLabel (root : WrittenPath) (marks : PrivateMarks) (x : Located) :
    (originLabel root marks x.site x.label).treatment =
      if x.origin root = .foreign then .link
      else if x.origin root = .native ∧ Decl.isPruned marks x.site x.label = true then .ignore
      else x.label.treatment := by
  rw [originLabel, show Origin.ofPath root (x.site.chain x.label).rootPath = x.origin root from rfl]
  cases x.origin root with
  | unresolved | foreign => rfl
  | native => cases hp : Decl.isPruned marks x.site x.label <;> simp [Label.suppress]

namespace Tree

variable {root : WrittenPath} {marks : PrivateMarks} {p : Policy} {t : Tree} {x : Located}

/-- What is suppressed after classification and policy was cut off or suppressed before. -/
theorem suppression_normalized (hs : t.IsShaped) (hx : x ∈ t.survey) :
    (x.normalized root marks p t).label.suppression =
      if x.isCut root marks p t then .bool true else x.label.suppression := by
  rw [label_normalized, Policy.suppression_labelUnder, suppresses_classified hs hx,
    suppression_originLabel]
  cases hp : p.suppresses t x.site x.label <;> simp [Located.isCut, hp]

/-- The treatment after classification and policy. -/
theorem treatment_normalized (hs : t.IsShaped) (hx : x ∈ t.survey) :
    (x.normalized root marks p t).label.treatment =
      if x.isCut root marks p t then .ignore
      else if x.origin root = .foreign then .link else x.label.treatment := by
  rw [label_normalized, Policy.treatment_labelUnder, suppresses_classified hs hx,
    treatment_originLabel]
  cases hp : p.suppresses t x.site x.label with
  | true => simp [Located.isCut, hp]
  | false => cases ho : x.origin root <;> simp [Located.isCut, hp, ho]

/-- What is out after classification and policy. -/
theorem isOut_normalized (hs : t.IsShaped) (hx : x ∈ t.survey) :
    (x.normalized root marks p t).label.isOut = x.isOutAfter root marks p t := by
  rw [Label.isOut, Label.isSuppressed, suppression_normalized hs hx, treatment_normalized hs hx,
    Located.isOutAfter]
  cases x.isCut root marks p t with
  | true => rfl
  | false => cases x.origin root <;> rfl

/-- What is ignored after classification and policy. -/
theorem isIgnored_normalized (hs : t.IsShaped) (hx : x ∈ t.survey) :
    (x.normalized root marks p t).isIgnored = true ↔
      ∃ y ∈ t.survey, y.site.address <+: x.site.address ∧ y.isOutAfter root marks p t = true := by
  have hm : ∀ {y : Located}, y ∈ t.survey → y.normalized root marks p t ∈
      ((t.classified root marks).normalized p).survey := fun {y} hy =>
    mem_survey_relabel.2 ⟨_, mem_survey_relabel.2 ⟨y, hy, rfl⟩, rfl⟩
  rw [isIgnored_iff (hm hx)]
  constructor
  · rintro ⟨z, hz, hzx, ho⟩
    obtain ⟨v, hv, rfl⟩ := mem_survey_relabel.1 hz
    obtain ⟨y, hy, rfl⟩ := mem_survey_relabel.1 hv
    exact ⟨y, hy, hzx, (isOut_normalized hs hy).symm.trans ho⟩
  · rintro ⟨y, hy, hyx, ho⟩
    exact ⟨_, hm hy, hyx, (isOut_normalized hs hy).trans ho⟩

/-- Resolution leaves suppressions alone. -/
theorem suppression_settle (hs : t.IsShaped) (hx : x ∈ t.survey) :
    (x.settle root marks p t).label.suppression =
      if x.isCut root marks p t then .bool true else x.label.suppression := by
  rw [← suppression_normalized hs hx, Located.settle, Located.label_relabel, resolvedLabel]
  split <;> rfl

/-- The treatment after classification, policy and resolution. -/
theorem treatment_settle (root : WrittenPath) (marks : PrivateMarks) (p : Policy)
    (hs : t.IsShaped) (hx : x ∈ t.survey) :
    ((∃ y ∈ t.survey, y.site.address <+: x.site.address ∧ y.isOutAfter root marks p t = true) →
      (x.settle root marks p t).label.treatment = .ignore) ∧
    ((¬ ∃ y ∈ t.survey, y.site.address <+: x.site.address ∧
        y.isOutAfter root marks p t = true) →
      (x.settle root marks p t).label.treatment =
        if x.origin root = .foreign then .link else x.label.treatment) := by
  rw [← isIgnored_normalized hs hx, Located.settle, Located.label_relabel]
  refine ⟨treatment_resolvedLabel, fun h => ?_⟩
  have hi : (x.normalized root marks p t).site.isIgnored
      (x.normalized root marks p t).label = false := Bool.eq_false_iff.2 h
  have hc : x.isCut root marks p t = false := by
    rw [← Bool.not_eq_true]
    intro hc
    refine h (Located.isIgnored_of_treatment ?_)
    rw [treatment_normalized hs hx, hc]
    rfl
  rw [resolvedLabel, isInherited, hi, Bool.and_false, if_neg (by simp), treatment_normalized hs hx,
    hc, if_neg (by simp)]

end Tree

end Bindery
