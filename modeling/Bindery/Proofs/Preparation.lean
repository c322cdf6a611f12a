import Bindery.Proofs.FinalTreatment
import Bindery.Proofs.Obedience

/-!
# Trees that are prepared

After classification, policy and resolution a tree has properties that the later passes keep. They
say what classification and the policy would find if they were run again: nothing new, except for
names that the tree has got since then. Main statements: `IsLoaded.isPrepared_settle`,
`Changes.isPrepared`.
-/

namespace Bindery

namespace Tree

variable {root : WrittenPath} {marks : PrivateMarks} {p : Policy} {t t' : Tree} {x y : Located}

/-! ## What pruning reaches -/

/-- The label of a declaration above another is in the other's scope. -/
theorem label_mem_scope (hx : x ∈ t.survey) (hy : y ∈ t.survey)
    (h : y.site.address <+: x.site.address) (hne : y.site.address ≠ x.site.address) :
    y.label ∈ x.site.scope := by
  have hc : y.chain <:+ x.site.scope := by
    refine (List.suffix_cons_iff.1 (chain_suffix_of_address hx hy h)).resolve_left fun hc => hne ?_
    refine h.eq_of_length ?_
    rw [← length_chain hx, ← length_chain hy, hc]
    rfl
  exact hc.subset List.mem_cons_self

/-- An address leads on to a member, without being that of the member, just if it leads on to the
owner. -/
theorem prefix_member_iff (x y : Located) (i : Nat) (m : Decl) :
    (y.site.address <+: (x.member i m).site.address ∧
      y.site.address ≠ (x.member i m).site.address) ↔ y.site.address <+: x.site.address := by
  rw [Located.address_member, List.prefix_concat_iff]
  constructor
  · rintro ⟨h | h, hne⟩
    · exact absurd h hne
    · exact h
  · intro h
    refine ⟨Or.inr h, fun he => ?_⟩
    have hl := h.length_le
    rw [he, List.length_append] at hl
    exact absurd hl (by simp)

/-- The owners of a member below the unit are its owner, if that is no unit, and the owners of that
one. -/
theorem any_dropLast_scope_member {q : Label → Bool} (x : Located) (i : Nat) (m : Decl) :
    (x.member i m).site.scope.dropLast.any q = true ↔
      x.site.scope ≠ [] ∧ q x.label = true ∨ x.site.scope.dropLast.any q = true := by
  rw [Located.scope_member, Located.chain, Site.chain]
  by_cases hs : x.site.scope = []
  · simp [hs]
  · rw [List.dropLast_cons_of_ne_nil hs, List.any_cons, Bool.or_eq_true]
    simp [hs]

/-- Something holds of an owner below the unit just if it holds of a declaration there. -/
theorem any_dropLast_scope_iff {q : Label → Bool} (hx : x ∈ t.survey) :
    x.site.scope.dropLast.any q = true ↔ ∃ y ∈ t.survey, y.site.address <+: x.site.address ∧
      y.site.address ≠ x.site.address ∧ y.site.scope ≠ [] ∧ q y.label = true := by
  refine survey_induction (P := fun x => x.site.scope.dropLast.any q = true ↔
    ∃ y ∈ t.survey, y.site.address <+: x.site.address ∧ y.site.address ≠ x.site.address ∧
      y.site.scope ≠ [] ∧ q y.label = true) ?_ ?_ x hx
  · intro i d hd
    refine iff_of_false (by simp [Site.child, Site.top]) ?_
    rintro ⟨y, hy, hyx, hne, -, -⟩
    rcases List.prefix_concat_iff.1 hyx with h | h
    · exact hne h
    · exact address_ne_nil hy (List.prefix_nil.1 h)
  · intro z hz ih i m hm
    rw [any_dropLast_scope_member, ih]
    constructor
    · rintro (⟨hs, hq⟩ | ⟨y, hy, hyz, -, hs, hq⟩)
      · obtain ⟨h1, h2⟩ := (prefix_member_iff z z i m).2 List.prefix_rfl
        exact ⟨z, hz, h1, h2, hs, hq⟩
      · obtain ⟨h1, h2⟩ := (prefix_member_iff z y i m).2 hyz
        exact ⟨y, hy, h1, h2, hs, hq⟩
    · rintro ⟨y, hy, h1, h2, hs, hq⟩
      have hyz := (prefix_member_iff z y i m).1 ⟨h1, h2⟩
      by_cases he : y.site.address = z.site.address
      · obtain rfl := eq_of_address_eq hy hz he
        exact Or.inl ⟨hs, hq⟩
      · exact Or.inr ⟨y, hy, hyz, he, hs, hq⟩

/-- Pruning reaches what stands below a unit and below nothing private. -/
theorem isReached_iff (hx : x ∈ t.survey) :
    Decl.isReached marks x.site = true ↔ x.site.scope ≠ [] ∧ ∀ y ∈ t.survey,
      y.site.address <+: x.site.address → y.site.address ≠ x.site.address →
        y.site.scope ≠ [] → marks.isPrivate y.label.name = false := by
  have hany := any_dropLast_scope_iff (q := fun l => marks.isPrivate l.name) hx
  rw [Decl.isReached, Bool.and_eq_true, Bool.not_eq_true', Bool.not_eq_true',
    ← Bool.not_eq_true (List.any _ _), hany]
  refine and_congr (by simp) ⟨fun h y hy hyx hne hs => ?_, fun h => ?_⟩
  · rw [← Bool.not_eq_true]
    exact fun hp => h ⟨y, hy, hyx, hne, hs, hp⟩
  · rintro ⟨y, hy, hyx, hne, hs, hp⟩
    rw [h y hy hyx hne hs] at hp
    cases hp

/-! ## Names after classification and policy -/

/-- Private names are names. -/
theorem isGiven_of_isPrivate {name : Value} (h : marks.isPrivate name = true) :
    name.isGiven = true := by
  rw [PrivateMarks.isPrivate, PrivateMarks.judge] at h
  by_contra hg
  simp [hg] at h

/-- Whether a name is private can be judged if it is. -/
theorem isPrivate_of_judge {name : Value} {v : Bool} (h : marks.judge name = .ok v) :
    marks.isPrivate name = v := by rw [PrivateMarks.isPrivate, h]

/-- Classification sets tags and nothing else. -/
theorem originLabel_eq (root : WrittenPath) (marks : PrivateMarks) (s : Site) (l : Label) :
    originLabel root marks s l = { l with
      treatment := (originLabel root marks s l).treatment
      suppression := (originLabel root marks s l).suppression } := by
  rw [originLabel]
  split
  · rfl
  · rfl
  · split <;> rfl

/-- Resolution sets treatments and nothing else. -/
theorem resolvedLabel_eq (s : Site) (l : Label) :
    resolvedLabel s l = { l with treatment := (resolvedLabel s l).treatment } := by
  rw [resolvedLabel]
  split <;> rfl

/-- Whether the policy names a declaration once its tree is classified. -/
def namesAfter (root : WrittenPath) (marks : PrivateMarks) (p : Policy) (t : Tree) (x : Located) :
    Bool :=
  p.namesEnum (t.classified root marks) (x.site.relabel (originLabel root marks))
    (originLabel root marks x.site x.label)

/-- The name after classification, policy and resolution. -/
theorem name_settle (root : WrittenPath) (marks : PrivateMarks) (p : Policy) (t : Tree)
    (x : Located) : (x.settle root marks p t).label.name =
      if t.namesAfter root marks p x then p.typedEnumName else x.label.name := by
  have hn : (originLabel root marks x.site x.label).name = x.label.name := by rw [originLabel_eq]
  rw [Located.settle, Located.label_relabel, resolvedLabel_eq, label_normalized,
    Policy.name_labelUnder, hn]
  rfl

/-- Classification leaves the names of enumerations alone. -/
theorem keepsEnumNames_originLabel (t : Tree) :
    Policy.KeepsEnumNames t (originLabel root marks) := fun x _ _ => by rw [originLabel_eq]

/-- A policy that can be applied to a tree can be applied after classification. -/
theorem isApplicable_classified (hs : t.IsShaped) (h : p.IsApplicable t) (root : WrittenPath)
    (marks : PrivateMarks) : p.IsApplicable (t.classified root marks) :=
  h.relabel hs (agreesUnder_originLabel root marks t) (keepsEnumNames_originLabel t)

/-- Classification does not change which enumerations get a name. -/
theorem namesAfter_eq (hs : t.IsShaped) (hx : x ∈ t.survey) :
    t.namesAfter root marks p x = p.namesEnum t x.site x.label :=
  Policy.namesEnum_relabel hs (agreesUnder_originLabel root marks t) (keepsEnumNames_originLabel t)
    hx

/-- The access after classification, policy and resolution. -/
theorem access_settle (hs : t.IsShaped) (x : Located) :
    (x.settle root marks p t).label.access =
      if p.publishes t x.site then .publicAccess else x.label.access := by
  have ho : (originLabel root marks x.site x.label).access = x.label.access := by
    rw [originLabel_eq]
  have hp : p.publishes (t.classified root marks) (x.site.relabel (originLabel root marks)) =
      p.publishes t x.site :=
    Policy.publishes_relabel (Policy.publishedAt?_relabel hs
      (agreesUnder_originLabel root marks t) (keepsEnumNames_originLabel t)) x.site
  rw [Located.settle, Located.label_relabel, resolvedLabel_eq, label_normalized,
    Policy.access_labelUnder, hp, ho]

/-- The form after classification, policy and resolution. -/
theorem form_settle (hs : t.IsShaped) (hx : x ∈ t.survey) :
    (x.settle root marks p t).label.form =
      if p.makesValue x.site x.label then (Policy.markValue x.label).form else x.label.form := by
  have ho : (originLabel root marks x.site x.label).form = x.label.form := by
    rw [originLabel_eq]
  rw [Located.settle, Located.label_relabel, resolvedLabel_eq, label_normalized,
    Policy.form_labelUnder,
    Policy.makesValue_relabel hs (agreesUnder_originLabel root marks t) hx, ho,
    Policy.form_markValue_congr ho]

/-- Only enumerations without a name get one. -/
theorem isAnonymousEnum_of_namesAfter (h : t.namesAfter root marks p x = true) :
    Policy.isAnonymousEnum x.label = true := by
  rw [namesAfter, Policy.namesEnum, Bool.and_eq_true, originLabel_eq root marks x.site x.label] at h
  exact h.1

/-- Private names stay. -/
theorem name_settle_of_isPrivate (p : Policy) (t : Tree)
    (h : marks.isPrivate x.label.name = true) :
    (x.settle root marks p t).label.name = x.label.name := by
  rw [name_settle, if_neg]
  intro hn
  have ha := isAnonymousEnum_of_namesAfter hn
  rw [Policy.isAnonymousEnum, isGiven_of_isPrivate h] at ha
  simp at ha

/-- What pruning reaches after classification, policy and resolution it reached before. -/
theorem isReached_of_settle (hx : x ∈ t.survey)
    (h : Decl.isReached marks (x.settle root marks p t).site = true) :
    Decl.isReached marks x.site = true := by
  have hm : ∀ {y : Located}, y ∈ t.survey →
      y.settle root marks p t ∈ (t.settle root marks p).survey := fun {y} hy =>
    mem_survey_settle.2 ⟨y, hy, rfl⟩
  have hscope : ∀ y : Located, (y.settle root marks p t).site.scope = [] ↔ y.site.scope = [] := by
    intro y
    rw [← List.length_eq_zero_iff, ← List.length_eq_zero_iff]
    simp [Located.settle, Located.normalized, Located.classified, Site.relabel]
  rw [isReached_iff (hm hx)] at h
  refine (isReached_iff hx).2 ⟨fun hs => h.1 ((hscope x).2 hs), fun y hy hyx hne hs => ?_⟩
  rw [← Bool.not_eq_true]
  intro hp
  have hn := h.2 _ (hm hy) hyx hne fun h0 => hs ((hscope y).1 h0)
  rw [name_settle_of_isPrivate p t hp, hp] at hn
  cases hn

end Tree

namespace Policy

variable {p : Policy} {t : Tree} {x : Located}

/-- Where a policy names enumerations, it suppresses nothing but methods. -/
theorem isMethod_of_suppresses (sound : p.IsSound) (hs : t.IsShaped)
    (hne : p.typedEnumClasses ≠ []) (hx : x ∈ t.survey)
    (h : p.suppresses t x.site x.label = true) : x.label.form.isMethod = true := by
  obtain ⟨hg, hi⟩ := sound.apart.resolve_left hne
  rw [suppresses, drops, hg, hi, Bool.false_and, List.any_nil, Bool.or_false, Bool.or_false] at h
  obtain ⟨method, -, hu⟩ := List.any_eq_true.1 h
  rw [isUnbound, Bool.and_eq_true, Bool.and_eq_true, beq_iff_eq] at hu
  refine hs.methods x hx hu.1.1 fun h0 => ?_
  rw [h0] at hu
  exact absurd hu.2 (by simp)

end Policy

/-- What is true of a tree once it is classified, normalized and resolved. -/
structure Tree.IsPrepared (root : WrittenPath) (marks : PrivateMarks) (p : Policy) (t : Tree) :
    Prop where
  /-- The tree is shaped. -/
  shaped : t.IsShaped
  /-- Treatments tell what is ignored. -/
  settled : t.IsSettled
  /-- Everything that is ignored is suppressed on purpose, itself or by an owner. -/
  backed : t.IsBacked
  /-- The policy can be applied. -/
  applicable : p.IsApplicable t
  /-- The policy has nothing left to do but for events. -/
  obeyed : p.IsObeyed t
  /-- What is not ignored is linked or generated by its origin. -/
  origins : ∀ x ∈ t.survey, x.label.treatment = .ignore ∨
    x.label.treatment = if x.origin root = .foreign then .link else .generate
  /-- Suppressions are marks. -/
  flags : ∀ x ∈ t.survey, x.label.isSuppressed = true → x.label.suppression = .bool true
  /-- Events are generated. -/
  events : ∀ x ∈ t.survey, x.label.form.isEvent = true → x.isGenerated = true
  /-- Where pruning gets to what is not generated, the name can be judged, and is suppressed if it
  is private. -/
  judged : ∀ x ∈ t.survey, x.origin root = .native → Decl.isReached marks x.site = true →
    x.isGenerated = false → ∃ v, marks.judge x.label.name = .ok v ∧
      (v = true → x.label.suppression = .bool true)

namespace Tree

variable {root : WrittenPath} {marks : PrivateMarks} {p : Policy} {t t' : Tree} {x y : Located}

/-- What resolution changes spares what a policy sets. -/
theorem sparedBy_resolvedLabel (t : Tree) : t.SparedBy resolvedLabel where
  agrees := agreesUnder_resolvedLabel t
  form x _ := by rw [resolvedLabel_eq]
  access x _ := by rw [resolvedLabel_eq]
  suppression x _ := by rw [resolvedLabel_eq]
  enumNames x _ _ := by rw [resolvedLabel_eq]

/-- A tree is shaped after classification and policy if it was. -/
theorem IsShaped.normalized (hs : t.IsShaped) (root : WrittenPath) (marks : PrivateMarks)
    (p : Policy) : ((t.classified root marks).normalized p).IsShaped :=
  (hs.classified root marks).relabel (agreesUnder_labelUnder p _)

/-- A settled tree is shaped if the tree was. -/
theorem IsShaped.settle (hs : t.IsShaped) (root : WrittenPath) (marks : PrivateMarks) (p : Policy) :
    (t.settle root marks p).IsShaped :=
  (hs.normalized root marks p).relabel (agreesUnder_resolvedLabel _)

/-- What is ignored after classification, policy and resolution of a loaded tree stands at or below
something that was cut off. -/
theorem IsLoaded.exists_isCut (hl : t.IsLoaded) (hx : x ∈ t.survey)
    (h : (x.settle root marks p t).label.treatment = .ignore) :
    ∃ y ∈ t.survey, y.site.address <+: x.site.address ∧ y.isCut root marks p t = true := by
  by_contra hn
  have hn' : ¬ ∃ y ∈ t.survey, y.site.address <+: x.site.address ∧
      y.isOutAfter root marks p t = true := by
    rintro ⟨y, hy, hyx, ho⟩
    exact hn ⟨y, hy, hyx, by rwa [hl.isOutAfter hy] at ho⟩
  rw [(Tree.treatment_settle root marks p hl.isShaped hx).2 hn', (hl.label x hx).treatment] at h
  split at h <;> cases h

/-- What pruning reaches after classification, policy and resolution of a loaded tree, without being
generated, has kept its name. -/
theorem IsLoaded.name_settle_of_isReached (hl : t.IsLoaded) (sound : p.IsSound) (hx : x ∈ t.survey)
    (hr : Decl.isReached marks x.site = true)
    (hi : (x.settle root marks p t).label.treatment = .ignore) :
    (x.settle root marks p t).label.name = x.label.name := by
  rw [name_settle, if_neg]
  intro hn
  have ha := isAnonymousEnum_of_namesAfter hn
  rw [Policy.isAnonymousEnum, Bool.and_eq_true, Bool.and_eq_true, Bool.not_eq_true'] at ha
  have hne : p.typedEnumClasses ≠ [] := fun h0 => by
    rw [namesAfter, Policy.namesEnum, Policy.namesEnumsOf, h0] at hn
    simp at hn
  -- What was cut off is no method, as it is the enumeration or has it in its scope.
  obtain ⟨y, hy, hyx, hc⟩ := hl.exists_isCut hx hi
  have hscope : y.label.form.isScope = true := by
    by_cases he : y.site.address = x.site.address
    · obtain rfl := eq_of_address_eq hy hx he
      exact Form.isScope_of_isEnumeration ha.1.2
    · exact hl.isShaped.scopes x hx _ (label_mem_scope hx hy hyx he)
  rw [Located.isCut, Bool.or_eq_true, Bool.and_eq_true] at hc
  rcases hc with ⟨-, hp⟩ | hp
  · obtain ⟨hs, hm⟩ := isPrivate_of_isPruned hp
    by_cases he : y.site.address = x.site.address
    · obtain rfl := eq_of_address_eq hy hx he
      rw [isGiven_of_isPrivate hm] at ha
      exact absurd ha.2 (by simp)
    · rw [((isReached_iff hx).1 hr).2 y hy hyx he hs] at hm
      cases hm
  · have hm := Policy.isMethod_of_suppresses sound hl.isShaped hne hy hp
    rw [Form.isMethod_of_isScope hscope] at hm
    cases hm

/-- After classification, policy and resolution of a loaded tree, what is not ignored has the
treatment of its unit. -/
theorem IsLoaded.origins_settle (hl : t.IsLoaded) (hx : x ∈ t.survey) :
    (x.settle root marks p t).label.treatment = .ignore ∨
      (x.settle root marks p t).label.treatment =
        if x.origin root = .foreign then .link else .generate := by
  obtain ⟨out, notOut⟩ := Tree.treatment_settle root marks p hl.isShaped hx
  by_cases h : ∃ y ∈ t.survey, y.site.address <+: x.site.address ∧
      y.isOutAfter root marks p t = true
  · exact Or.inl (out h)
  · rw [notOut h, (hl.label x hx).treatment]
    exact Or.inr rfl

/-- Classification, policy and resolution of a loaded tree suppress what is cut off. -/
theorem IsLoaded.suppression_settle (hl : t.IsLoaded) (hx : x ∈ t.survey) :
    (x.settle root marks p t).label.suppression =
      if x.isCut root marks p t then .bool true else .bool false := by
  rw [Tree.suppression_settle hl.isShaped hx, (hl.label x hx).suppression]

/-- What is not generated after classification, policy and resolution of a loaded tree has a name
that was judged, and is suppressed if the name is private. -/
theorem IsLoaded.judged_settle (hl : t.IsLoaded) (sound : p.IsSound) (judged : t.IsJudged root marks)
    (hx : x ∈ t.survey) (ho : x.origin root = .native)
    (hr : Decl.isReached marks (x.settle root marks p t).site = true)
    (hi : (x.settle root marks p t).label.treatment = .ignore) :
    ∃ v, marks.judge (x.settle root marks p t).label.name = .ok v ∧
      (v = true → (x.settle root marks p t).label.suppression = .bool true) := by
  have hr0 := isReached_of_settle hx hr
  rw [hl.name_settle_of_isReached sound hx hr0 hi, hl.suppression_settle hx]
  obtain ⟨v, hv⟩ := judged x hx ho hr0
  refine ⟨v, hv, fun hp => ?_⟩
  have hc : x.isCut root marks p t = true := by
    rw [Located.isCut, Decl.isPruned, ho, hr0, isPrivate_of_judge hv, hp]
    rfl
  rw [hc]
  rfl

/-- A loaded tree is prepared by classification, policy and resolution. -/
theorem IsLoaded.isPrepared_settle (hl : t.IsLoaded) (sound : p.IsSound)
    (judged : t.IsJudged root marks) (applicable : p.IsApplicable (t.classified root marks)) :
    (t.settle root marks p).IsPrepared root marks p := by
  have hs1 := hl.isShaped.classified root marks
  have hs2 := hl.isShaped.normalized root marks p
  have settled : (t.settle root marks p).IsSettled := isSettled_resolve _
  refine
    { shaped := hl.isShaped.settle root marks p
      settled
      backed := ?_
      applicable := (applicable.normalized hs1).relabel hs2 (agreesUnder_resolvedLabel _)
        (sparedBy_resolvedLabel _).enumNames
      obeyed := (Policy.isObeyed_normalized sound hs1).relabel hs2 (sparedBy_resolvedLabel _)
      origins := ?_
      flags := ?_
      events := ?_
      judged := ?_ } <;> intro z hz <;> obtain ⟨x, hx, rfl⟩ := mem_survey_settle.1 hz
  · intro hi
    obtain ⟨y, hy, hyx, hc⟩ := hl.exists_isCut hx ((settled _ hz).2 hi)
    refine (any_chain_iff hz).2 ⟨_, mem_survey_settle.2 ⟨y, hy, rfl⟩, hyx, ?_⟩
    rw [Label.isSuppressed, hl.suppression_settle hy, hc]
    rfl
  · rw [origin_settle root hx]
    exact hl.origins_settle hx
  · rw [Label.isSuppressed, hl.suppression_settle hx]
    split
    · exact fun _ => rfl
    · exact fun h => absurd h (by simp [Value.isGiven])
  · rw [(agrees_settle hx).isEvent, (hl.label x hx).event]
    intro he
    cases he
  · intro ho hr hg
    rw [origin_settle root hx] at ho
    have hi : (x.settle root marks p t).label.treatment = .ignore := by
      refine (hl.origins_settle hx).resolve_right fun ht => ?_
      rw [ho] at ht
      rw [(settled.isGenerated_iff hz).2 ht] at hg
      cases hg
    exact hl.judged_settle sound judged hx ho hr hi

/-! ## What the later passes keep -/

variable {f : Site → Label → Label} {g : Site → Decl → List Decl}

/-- What only reads differently spares what a policy sets. -/
theorem sparedBy_of_mayRead (hf : ∀ x ∈ t.survey, x.MayRead (f x.site x.label)) :
    t.SparedBy f where
  agrees x hx := (hf x hx).hasTags.agrees
  form x hx := (hf x hx).form
  access x hx := (hf x hx).access
  suppression x hx := (hf x hx).suppression
  enumNames x hx he := (hf x hx).name_of_isScope (Form.isScope_of_isEnumeration he)

/-- What keeps its tags is generated if it was. -/
theorem isGenerated_relabel_of_hasTags (hf : ∀ x ∈ t.survey, x.HasTags (f x.site x.label))
    (hx : x ∈ t.survey) : (x.relabel f).isGenerated = x.isGenerated := by
  have hi := Bool.eq_iff_iff.2 (isIgnored_relabel_of_hasTags hf hx)
  have ht : (x.relabel f).label.treatment = x.label.treatment := by
    rw [Located.label_relabel, (hf x hx).treatment]
  change ((x.relabel f).label.treatment == .generate && !(x.relabel f).isIgnored) = _
  rw [hi, ht]
  rfl

/-- Pruning reaches a declaration as before if its owners keep their names. -/
theorem isReached_relabel (hx : x ∈ t.survey)
    (hn : ∀ y ∈ t.survey, y.site.address <+: x.site.address → y.site.address ≠ x.site.address →
      (f y.site y.label).name = y.label.name) :
    Decl.isReached marks (x.relabel f).site = Decl.isReached marks x.site := by
  have hq : (x.relabel f).site.scope.dropLast.any (fun l => marks.isPrivate l.name) =
      x.site.scope.dropLast.any fun l => marks.isPrivate l.name := by
    have hscope : ∀ y : Located, (y.relabel f).site.scope = [] ↔ y.site.scope = [] := by
      intro y
      rw [← List.length_eq_zero_iff, ← List.length_eq_zero_iff]
      simp [Site.relabel]
    rw [Bool.eq_iff_iff, any_dropLast_scope_iff (mem_survey_relabel.2 ⟨x, hx, rfl⟩),
      any_dropLast_scope_iff hx]
    constructor
    · rintro ⟨y', hy', hyx, hne, hsc, hp⟩
      obtain ⟨y, hy, rfl⟩ := mem_survey_relabel.1 hy'
      rw [Located.label_relabel, hn y hy hyx hne] at hp
      exact ⟨y, hy, hyx, hne, fun h0 => hsc ((hscope y).2 h0), hp⟩
    · rintro ⟨y, hy, hyx, hne, hsc, hp⟩
      refine ⟨_, mem_survey_relabel.2 ⟨y, hy, rfl⟩, hyx, hne, fun h0 => hsc ((hscope y).1 h0), ?_⟩
      rwa [Located.label_relabel, hn y hy hyx hne]
  have hempty : (x.relabel f).site.scope.isEmpty = x.site.scope.isEmpty := by
    rw [Bool.eq_iff_iff, List.isEmpty_iff_length_eq_zero, List.isEmpty_iff_length_eq_zero]
    simp [Site.relabel]
  rw [Decl.isReached, Decl.isReached, hq, hempty]

/-- Pruning reaches the same declarations when the tree only reads differently: owners are scopes
and keep their names. -/
theorem isReached_relabel_of_mayRead (hs : t.IsShaped)
    (hf : ∀ x ∈ t.survey, x.MayRead (f x.site x.label)) (hx : x ∈ t.survey) :
    Decl.isReached marks (x.relabel f).site = Decl.isReached marks x.site :=
  isReached_relabel hx fun y hy hyx hne =>
    (hf y hy).name_of_isScope (hs.scopes x hx _ (label_mem_scope hx hy hyx hne))

/-- A prepared tree stays so when it only reads differently. -/
theorem IsPrepared.relabel (h : t.IsPrepared root marks p)
    (hf : ∀ x ∈ t.survey, x.MayRead (f x.site x.label)) :
    (t.relabel f).IsPrepared root marks p := by
  have hspared := sparedBy_of_mayRead hf
  have htags : ∀ x ∈ t.survey, x.HasTags (f x.site x.label) := fun x hx => (hf x hx).hasTags
  have change : t.Change Located.HasTags (t.relabel f) := .relabel f htags
  refine
    { shaped := h.shaped.relabel hspared.agrees
      settled := change.isSettled h.settled
      backed := Change.isBacked (.relabel f fun x hx => (htags x hx).mayTurn) h.backed
      applicable := h.applicable.relabel h.shaped hspared.agrees hspared.enumNames
      obeyed := h.obeyed.relabel h.shaped hspared
      origins := ?_
      flags := ?_
      events := ?_
      judged := ?_ } <;> intro y hy <;> obtain ⟨x, hx, rfl⟩ := mem_survey_relabel.1 hy
  · rw [Located.label_relabel, (hf x hx).treatment, origin_relabel root hspared.agrees hx]
    exact h.origins x hx
  · rw [Label.isSuppressed, Located.label_relabel, (hf x hx).suppression]
    exact h.flags x hx
  · rw [Located.label_relabel, (hf x hx).form, isGenerated_relabel_of_hasTags htags hx]
    exact h.events x hx
  · intro ho hr hg
    rw [origin_relabel root hspared.agrees hx] at ho
    rw [isReached_relabel_of_mayRead h.shaped hf hx] at hr
    rw [isGenerated_relabel_of_hasTags htags hx] at hg
    have hn : (f x.site x.label).name = x.label.name :=
      (hf x hx).name.resolve_right fun hr => by rw [hr.1] at hg; cases hg
    rw [Located.label_relabel, hn, (hf x hx).suppression]
    exact h.judged x hx ho hr hg

/-- A prepared tree stays so when it gets events. -/
theorem IsPrepared.extend (h : t.IsPrepared root marks p) (hg : t.GainsUnder g) :
    (t.extend g).IsPrepared root marks p := by
  refine
    { shaped := h.shaped.extend hg
      settled := Change.isSettled (.extend g hg) h.settled
      backed := Change.isBacked (.extend g hg) h.backed
      applicable := h.applicable.extend hg
      obeyed := h.obeyed.extend hg
      origins := ?_
      flags := ?_
      events := ?_
      judged := ?_ } <;> intro y hy <;>
      rcases hg.cases y hy with ⟨x, hx, rfl⟩ | ⟨x, hx, i, e, he, rfl⟩
  · rw [origin_extend, Located.label_extend]
    exact h.origins x hx
  · right
    rw [origin_member, origin_extend, Located.label_member, he.treatment, if_neg]
    intro ho
    have ht := (h.settled.isGenerated_iff hx).1 he.generated
    rcases h.origins x hx with hi | hi
    · rw [ht] at hi
      cases hi
    · rw [ht, if_pos ho] at hi
      cases hi
  · rw [Located.label_extend]
    exact h.flags x hx
  · rw [Label.isSuppressed, Located.label_member, he.suppression]
    intro hf
    cases hf
  · rw [Located.label_extend, Located.isGenerated, Located.label_extend]
    exact h.events x hx
  · exact fun _ => he.isGenerated_appended g i
  · intro ho hr hgen
    rw [Located.isGenerated, Located.label_extend] at hgen
    rw [origin_extend] at ho
    rw [Located.label_extend]
    exact h.judged x hx ho hr hgen
  · intro _ _ hgen
    rw [he.isGenerated_appended] at hgen
    cases hgen

/-- A prepared tree stays so when it only reads differently and gets events. -/
theorem Changes.isPrepared (h : t.Changes Located.MayRead t') (hp : t.IsPrepared root marks p) :
    t'.IsPrepared root marks p := by
  induction h with
  | refl => exact hp
  | tail _ hstep ih =>
    cases hstep with
    | relabel f hf => exact ih.relabel hf
    | extend g hg => exact ih.extend hg

end Tree

end Bindery
