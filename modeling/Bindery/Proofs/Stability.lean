import Bindery.Proofs.Preparation

/-!
# What classification and policy find in a prepared tree

Run again on a prepared tree, classification, policy and resolution change nothing if they suppress
nothing anew. That is so just if no name of a generated declaration of a native unit has become
private and the string class has got no events. Main statements: `IsPrepared.settle_eq_self`,
`IsPrepared.isUncut_iff`.
-/

namespace Bindery

attribute [ext] Label

namespace Tree

variable {root : WrittenPath} {marks : PrivateMarks} {p : Policy} {t : Tree} {x y : Located}

/-- Classification and the policy suppress nothing anew. -/
def IsUncut (root : WrittenPath) (marks : PrivateMarks) (p : Policy) (t : Tree) : Prop :=
  ∀ x ∈ t.survey, x.isCut root marks p t = true → x.label.suppression = .bool true

/-- Classification, policy and resolution change nothing just if they leave every label alone. -/
theorem settle_eq_self_iff : t.settle root marks p = t ↔
    ∀ x ∈ t.survey, (x.settle root marks p t).label = x.label := by
  have hset : ∃ f, t.settle root marks p = t.relabel f := by
    rw [settle, resolve, normalized, classified, relabel_relabel, relabel_relabel]
    exact ⟨_, rfl⟩
  obtain ⟨f, hf⟩ := hset
  have hlabel : ∀ x ∈ t.survey, f x.site x.label = (x.settle root marks p t).label := by
    intro x hx
    have hm : x.settle root marks p t ∈ (t.relabel f).survey := by
      rw [← hf]
      exact mem_survey_settle.2 ⟨x, hx, rfl⟩
    rw [← eq_of_address_eq (mem_survey_relabel.2 ⟨x, hx, rfl⟩) hm rfl, Located.label_relabel]
  rw [hf, relabel_eq_self_iff]
  exact forall₂_congr fun x hx => by rw [hlabel x hx]

/-- The policy is satisfied with the name of every declaration. -/
theorem IsPrepared.name_settle (h : t.IsPrepared root marks p) (hx : x ∈ t.survey) :
    (x.settle root marks p t).label.name = x.label.name := by
  rw [Tree.name_settle, namesAfter_eq h.shaped hx, h.obeyed.names x hx, if_neg (by simp)]

/-- The policy is satisfied with the access of every declaration. -/
theorem IsPrepared.access_settle (h : t.IsPrepared root marks p) (hx : x ∈ t.survey) :
    (x.settle root marks p t).label.access = x.label.access := by
  rw [Tree.access_settle h.shaped]
  split
  · next hpub => exact (h.obeyed.published x hx hpub).symm
  · rfl

/-- The policy is satisfied with the form of every declaration. -/
theorem IsPrepared.form_settle (h : t.IsPrepared root marks p) (hx : x ∈ t.survey) :
    (x.settle root marks p t).label.form = x.label.form := by
  rw [Tree.form_settle h.shaped hx]
  split
  · next hv => rw [h.obeyed.values x hx hv]
  · rfl

/-- Classification, policy and resolution leave comments alone. -/
theorem comment_settle (x : Located) : (x.settle root marks p t).label.comment = x.label.comment := by
  rw [Located.settle, Located.label_relabel, resolvedLabel_eq, label_normalized,
    Policy.labelUnder_eq, originLabel_eq root marks x.site x.label]

/-- In a prepared tree whatever is out after classification and policy was ignored, unless it is
suppressed anew. -/
theorem IsPrepared.isIgnored_of_isOutAfter (h : t.IsPrepared root marks p)
    (uncut : t.IsUncut root marks p) (hx : x ∈ t.survey)
    (ho : x.isOutAfter root marks p t = true) : x.isIgnored = true := by
  rw [Located.isOutAfter, Bool.or_eq_true, Bool.or_eq_true, Bool.and_eq_true, beq_iff_eq] at ho
  rcases ho with (hc | hs) | ⟨-, hi⟩
  · refine Located.isIgnored_of_isOut ?_
    rw [Label.isOut, Label.isSuppressed, uncut x hx hc]
    rfl
  · refine Located.isIgnored_of_isOut ?_
    rw [Label.isOut, hs, Bool.true_or]
  · exact (h.settled x hx).1 hi

/-- A prepared tree keeps its treatments if nothing is suppressed anew. -/
theorem IsPrepared.treatment_settle (h : t.IsPrepared root marks p)
    (uncut : t.IsUncut root marks p) (hx : x ∈ t.survey) :
    (x.settle root marks p t).label.treatment = x.label.treatment := by
  obtain ⟨out, notOut⟩ := Tree.treatment_settle root marks p h.shaped hx
  by_cases hex : ∃ y ∈ t.survey, y.site.address <+: x.site.address ∧
      y.isOutAfter root marks p t = true
  · rw [out hex]
    obtain ⟨y, hy, hyx, ho⟩ := hex
    exact ((h.settled x hx).2 (isIgnored_of_isIgnored_above hy hx hyx
      (h.isIgnored_of_isOutAfter uncut hy ho))).symm
  · -- What is ignored is suppressed at or above, so it would be out.
    rw [notOut hex]
    have hi : x.label.treatment ≠ .ignore := by
      intro hi
      obtain ⟨y, hy, hyx, hs⟩ := (any_chain_iff hx).1 (h.backed x hx ((h.settled x hx).1 hi))
      refine hex ⟨y, hy, hyx, ?_⟩
      rw [Located.isOutAfter, hs, Bool.or_true, Bool.true_or]
    rw [(h.origins x hx).resolve_left hi]
    split <;> rfl

/-- A prepared tree in which nothing is suppressed anew stays as it is through classification,
policy and resolution. -/
theorem IsPrepared.settle_eq_self (h : t.IsPrepared root marks p) (uncut : t.IsUncut root marks p) :
    t.settle root marks p = t := by
  refine settle_eq_self_iff.2 fun x hx => ?_
  have suppression : (x.settle root marks p t).label.suppression = x.label.suppression := by
    rw [suppression_settle h.shaped hx]
    split
    · next hc => exact (uncut x hx hc).symm
    · rfl
  have agrees : x.label.Agrees (x.settle root marks p t).label := agrees_settle hx
  exact Label.ext (h.name_settle hx) agrees.headerName (h.access_settle hx)
    (h.treatment_settle uncut hx) suppression (comment_settle x) agrees.role (h.form_settle hx)

/-! ## When nothing is suppressed anew -/

/-- No generated declaration of a native unit has a private name, or one that cannot be judged. -/
def IsPublic (root : WrittenPath) (marks : PrivateMarks) (t : Tree) : Prop :=
  ∀ x ∈ t.survey, x.site.scope ≠ [] → x.origin root = .native → x.isGenerated = true →
    marks.judge x.label.name = .ok false

/-- The string class of a policy, if it is given, has no events. -/
def IsMuted (p : Policy) (t : Tree) : Prop :=
  p.stringClass.isGiven = true → ∀ c, t.definition? p.stringClass = some c →
    ∀ m ∈ c.decl.members, m.form.isEvent = false

/-- Events are dropped just if they are members of the string class. -/
theorem drops_iff_of_isEvent (hx : x ∈ t.survey) (he : x.label.form.isEvent = true) :
    p.drops t x.site x.label = true ↔ p.stringClass.isGiven = true ∧
      ∃ c, t.definition? p.stringClass = some c ∧ x.site.address.dropLast = c.site.address := by
  have hk : p.isKept x.label = false := by
    rw [Policy.isKept]
    cases hf : x.label.form <;>
      simp_all [Form.isEvent, Form.adapter?, Form.isMethod, Form.methodTraits?]
  rw [Policy.drops, hk, Bool.and_eq_true, Option.any_eq_true]
  simp [Site.isMemberOf, address_ne_nil hx]

/-- What stands right below an address is a member of the declaration there. -/
theorem exists_member_of_address (hx : x ∈ t.survey) (hy : y ∈ t.survey)
    (h : x.site.address.dropLast = y.site.address) :
    ∃ i m, y.decl.members[i]? = some m ∧ x = y.member i m := by
  rcases survey_cases hx with ⟨i, d, -, rfl⟩ | ⟨z, hz, i, m, hm, rfl⟩
  · exact absurd h.symm (address_ne_nil hy)
  · rw [Located.address_member, List.dropLast_concat] at h
    obtain rfl := eq_of_address_eq hz hy h
    exact ⟨i, m, hm, rfl⟩

/-- What is suppressed is not generated, nor is what stands below. -/
theorem isGenerated_of_suppression (hx : x ∈ t.survey) (hy : y ∈ t.survey)
    (h : y.site.address <+: x.site.address) (hs : y.label.suppression = .bool true) :
    x.isGenerated = false := by
  have hi : x.isIgnored = true := by
    refine (isIgnored_iff hx).2 ⟨y, hy, h, ?_⟩
    rw [Label.isOut, Label.isSuppressed, hs]
    rfl
  rw [← Bool.not_eq_true]
  intro hg
  rw [Located.not_isIgnored_of_isGenerated hg] at hi
  cases hi

/-- If nothing is suppressed anew, nothing at or above a generated declaration of a native unit is
private. -/
theorem IsUncut.isPrivate_above (uncut : t.IsUncut root marks p) (hx : x ∈ t.survey)
    (ho : x.origin root = .native) (hg : x.isGenerated = true) (hy : y ∈ t.survey)
    (hyx : y.site.address <+: x.site.address) (hs : y.site.scope ≠ []) :
    marks.isPrivate y.label.name = false := by
  rw [← Bool.not_eq_true]
  intro hp
  have hd : y.chain.dropLast.any (fun l => marks.isPrivate l.name) = true := by
    rw [Located.chain, Site.chain, List.dropLast_cons_of_ne_nil hs, List.any_cons, hp,
      Bool.true_or]
  obtain ⟨z, hz, hzy, hpruned⟩ := exists_isPruned hy hd
  have hc : z.isCut root marks p t = true := by
    rw [Located.isCut, hpruned, origin_above hx hz (hzy.trans hyx), ho]
    rfl
  rw [isGenerated_of_suppression hx hz (hzy.trans hyx) (uncut z hz hc)] at hg
  cases hg

/-- If classification comes to an end and nothing is suppressed anew, nothing that is generated is
private. -/
theorem IsUncut.isPublic (uncut : t.IsUncut root marks p) (judged : t.IsJudged root marks) :
    t.IsPublic root marks := by
  intro x hx hs ho hg
  have hr : Decl.isReached marks x.site = true := (isReached_iff hx).2
    ⟨hs, fun y hy hyx _ hys => uncut.isPrivate_above hx ho hg hy hyx hys⟩
  obtain ⟨v, hv⟩ := judged x hx ho hr
  have hp := uncut.isPrivate_above hx ho hg hx List.prefix_rfl hs
  rw [isPrivate_of_judge hv] at hp
  rw [hv, hp]

/-- If nothing is suppressed anew, the string class has no events: they would be dropped. -/
theorem IsPrepared.isMuted (h : t.IsPrepared root marks p) (uncut : t.IsUncut root marks p) :
    t.IsMuted p := by
  intro hgiven c hc m hm
  rw [← Bool.not_eq_true]
  intro he
  obtain ⟨i, hi⟩ := List.getElem?_of_mem hm
  have hx := member_mem_survey (mem_of_definition? hc).1 hi
  have hd : p.drops t (c.member i m).site (c.member i m).label = true :=
    (drops_iff_of_isEvent hx he).2 ⟨hgiven, c, hc, List.dropLast_concat⟩
  have hcut : (c.member i m).isCut root marks p t = true := by
    rw [Located.isCut, Policy.suppresses, hd, Bool.or_true, Bool.true_or, Bool.or_true]
  have hg := h.events _ hx he
  rw [isGenerated_of_suppression hx hx List.prefix_rfl (uncut _ hx hcut)] at hg
  cases hg

/-- If nothing that is generated is private, classification comes to an end. -/
theorem IsPrepared.isJudged (h : t.IsPrepared root marks p) (shown : t.IsPublic root marks) :
    t.IsJudged root marks := by
  intro x hx ho hr
  cases hg : x.isGenerated with
  | true => exact ⟨false, shown x hx ((isReached_iff hx).1 hr).1 ho hg⟩
  | false =>
    obtain ⟨v, hv, -⟩ := h.judged x hx ho hr hg
    exact ⟨v, hv⟩

/-- If nothing that is generated is private and the string class has no events, nothing is
suppressed anew. -/
theorem IsPrepared.isUncut (h : t.IsPrepared root marks p) (shown : t.IsPublic root marks)
    (muted : t.IsMuted p) : t.IsUncut root marks p := by
  intro x hx hc
  rw [Located.isCut, Bool.or_eq_true, Bool.and_eq_true, beq_iff_eq] at hc
  rcases hc with ⟨ho, hp⟩ | hp
  · have hr : Decl.isReached marks x.site = true := by
      rw [Decl.isPruned, Bool.and_eq_true] at hp
      exact hp.1
    obtain ⟨hs, hpriv⟩ := isPrivate_of_isPruned hp
    cases hg : x.isGenerated with
    | true =>
      rw [isPrivate_of_judge (shown x hx hs ho hg)] at hpriv
      cases hpriv
    | false =>
      obtain ⟨v, hv, hsup⟩ := h.judged x hx ho hr hg
      rw [isPrivate_of_judge hv] at hpriv
      exact hsup hpriv
  · rcases h.obeyed.suppressed x hx hp with hsup | ⟨he, hd⟩
    · exact hsup
    · obtain ⟨hgiven, c, hc, ha⟩ := (drops_iff_of_isEvent hx he).1 hd
      obtain ⟨i, m, hm, rfl⟩ := exists_member_of_address hx (mem_of_definition? hc).1 ha
      have hmute : m.form.isEvent = false := muted hgiven c hc m (List.mem_of_getElem? hm)
      rw [Located.label_member] at he
      rw [Decl.form, he] at hmute
      cases hmute

/-- In a prepared tree classification comes to an end and nothing is suppressed anew just if nothing
generated has become private and the string class has got no events. -/
theorem IsPrepared.isUncut_iff (h : t.IsPrepared root marks p) :
    t.IsJudged root marks ∧ t.IsUncut root marks p ↔ t.IsPublic root marks ∧ t.IsMuted p := by
  constructor
  · rintro ⟨judged, uncut⟩
    exact ⟨uncut.isPublic judged, h.isMuted uncut⟩
  · rintro ⟨shown, muted⟩
    exact ⟨h.isJudged shown, h.isUncut shown muted⟩

end Tree

end Bindery
