import Bindery.Proofs.Outcome

/-!
# Trees that obey a policy

Once a policy is applied there is nothing left for it to do: what it suppresses is suppressed, what
it names is named, and so on. Recasing, documentation and resolution do not change that. Events do,
in one place: those of the string class are members that the policy has not dropped. Main
statements: `isObeyed_normalized`, `IsObeyed.relabel`, `IsObeyed.extend`.
-/

namespace Bindery

/-- A relabelling that, but for treatments, leaves everything alone that a policy sets. -/
structure Tree.SparedBy (t : Tree) (f : Site → Label → Label) : Prop where
  /-- The labels agree. -/
  agrees : t.AgreesUnder f
  /-- Forms are the same. -/
  form : ∀ x ∈ t.survey, (f x.site x.label).form = x.label.form
  /-- Access is the same. -/
  access : ∀ x ∈ t.survey, (f x.site x.label).access = x.label.access
  /-- Suppressions are the same. -/
  suppression : ∀ x ∈ t.survey, (f x.site x.label).suppression = x.label.suppression
  /-- Enumerations keep their names. -/
  enumNames : Policy.KeepsEnumNames t f

namespace Policy

/-- A policy that is in order: the name for enumerations is one, and it does not name enumerations
where it suppresses members by their class. -/
structure IsSound (p : Policy) : Prop where
  /-- The name for anonymous enumerations is given. -/
  named : p.typedEnumName.isGiven = true
  /-- Enumerations are named only if there is neither a string class nor a removal. -/
  apart : p.typedEnumClasses = [] ∨ p.stringClass.isGiven = false ∧ p.ignoredOperators = []

/-- The known policies are in order. -/
theorem isSound_base (module : Value) : (base module).IsSound := by
  rw [base]
  cases h : module.text?.bind fun name => known.lookup name with
  | none => exact ⟨rfl, Or.inl rfl⟩
  | some p =>
    obtain ⟨name, -, hl⟩ := Option.bind_eq_some_iff.1 h
    obtain ⟨before, after, hk, -⟩ := List.lookup_eq_some_iff.1 hl
    have hm : (name, p) ∈ known := by simp [hk]
    simp only [known, List.mem_cons, List.not_mem_nil, or_false, Prod.mk.injEq] at hm
    rcases hm with ⟨-, rfl⟩ | ⟨-, rfl⟩ | ⟨-, rfl⟩
    · exact ⟨rfl, Or.inl rfl⟩
    · exact ⟨rfl, Or.inr ⟨rfl, rfl⟩⟩
    · exact ⟨rfl, Or.inr ⟨rfl, rfl⟩⟩

/-- The policies of modules are in order. -/
theorem isSound_forModule {p : Policy} {module extra : Value} (h : forModule module extra = .ok p) :
    p.IsSound := by
  have hb := isSound_base module
  rw [forModule] at h
  split at h
  · cases h
  · split at h
    · exact Except.ok.inj h ▸ hb
    · obtain ⟨added, -, h⟩ := exists_of_bind_eq_ok h
      split at h
      · cases h
      · exact Except.ok.inj h ▸ ⟨hb.named, hb.apart⟩

/-- The tree leaves nothing to do for the policy, unless the string class has events. -/
structure IsObeyed (p : Policy) (t : Tree) : Prop where
  /-- Value types are marked. -/
  values : ∀ x ∈ t.survey, p.makesValue x.site x.label = true → markValue x.label = x.label
  /-- No enumeration is to get a name. -/
  names : ∀ x ∈ t.survey, p.namesEnum t x.site x.label = false
  /-- What is to be accessible is. -/
  published : ∀ x ∈ t.survey, p.publishes t x.site = true → x.label.access = .publicAccess
  /-- What is to be suppressed is, or is an event. -/
  suppressed : ∀ x ∈ t.survey, p.suppresses t x.site x.label = true →
    x.label.suppression = .bool true ∨
      x.label.form.isEvent = true ∧ p.drops t x.site x.label = true

variable {p : Policy} {t : Tree} {f : Site → Label → Label} {g : Site → Decl → List Decl}
variable {x : Located}

/-! ## What a policy sets -/

/-- Marking a class is a matter of its form. -/
theorem markValue_eq_self_iff (l : Label) :
    markValue l = l ↔ ∀ traits, l.form = .classType traits → traits.isValue = true := by
  rw [markValue]
  split
  · next traits hf =>
    constructor
    · intro h traits' hf'
      have hform := congrArg Label.form h
      rw [hf'] at hform
      rw [← Form.classType.inj hform]
    · intro h
      rw [← h traits hf, ← hf]
  · next hf =>
    exact iff_of_true rfl fun traits h => absurd h (hf traits)

/-- Marking value types changes the form by what it was. -/
theorem form_markValue_congr {l l' : Label} (h : l'.form = l.form) :
    (markValue l').form = (markValue l).form := by
  rw [markValue, markValue, h]
  cases hf : l.form <;> simp [h, hf]

/-- A class that is marked need not be marked again. -/
theorem markValue_markValue (l : Label) : markValue (markValue l) = markValue l := by
  rw [markValue_eq_self_iff]
  intro traits h
  rw [markValue] at h
  split at h
  · rw [← Form.classType.inj h]
  · next hf => exact absurd h (hf traits)

/-- The name that a policy leads to. -/
theorem name_labelUnder (p : Policy) (t : Tree) (s : Site) (l : Label) :
    (p.labelUnder t s l).name = if p.namesEnum t s l then p.typedEnumName else l.name := by
  rw [labelUnder_eq]

/-- The access that a policy leads to. -/
theorem access_labelUnder (p : Policy) (t : Tree) (s : Site) (l : Label) :
    (p.labelUnder t s l).access = if p.publishes t s then .publicAccess else l.access := by
  rw [labelUnder_eq]

/-- The form that a policy leads to. -/
theorem form_labelUnder (p : Policy) (t : Tree) (s : Site) (l : Label) :
    (p.labelUnder t s l).form = if p.makesValue s l then (markValue l).form else l.form := by
  rw [labelUnder_eq]

/-! ## What a policy picks -/

/-- A member that has a number is a declaration of the tree. -/
theorem exists_of_memberIndex? (hx : x ∈ t.survey) {condition : Decl → Bool} {i : Nat}
    (h : memberIndex? x.decl condition = some i) :
    ∃ m, x.member i m ∈ t.survey ∧ condition m = true := by
  obtain ⟨hi, hc, -⟩ := List.findIdx?_eq_some_iff_getElem.1 h
  exact ⟨_, Tree.member_mem_survey hx (List.getElem?_eq_getElem hi), hc⟩

/-- What is made accessible is a nested declaration. -/
theorem role_of_publishes (hx : x ∈ t.survey) (h : p.publishes t x.site = true) :
    x.label.role = .nested := by
  obtain ⟨entry, -, ha⟩ := List.any_eq_true.1 h
  obtain ⟨e, -, ha⟩ := Option.bind_eq_some_iff.1 (eq_of_beq ha)
  obtain ⟨c, hd, ha⟩ := Option.bind_eq_some_iff.1 ha
  obtain ⟨i, hi, ha⟩ := Option.map_eq_some_iff.1 ha
  obtain ⟨m, hm, hc⟩ := exists_of_memberIndex? (Tree.mem_of_definition? hd).1 hi
  obtain rfl := Tree.eq_of_address_eq hm hx ha
  rw [isEnumToPublish, Bool.and_eq_true, Bool.and_eq_true, beq_iff_eq] at hc
  exact hc.1.1

/-- What a removal is meant for is a method. -/
theorem role_of_picks {removal : OperatorRemoval} (hx : x ∈ t.survey)
    (h : removal.picks t x.site = true) : x.label.role = .method := by
  rw [OperatorRemoval.picks, Option.any_eq_true] at h
  obtain ⟨c, hd, h⟩ := h
  obtain ⟨i, hi, ha⟩ := (Option.any_eq_true _ _).1 h
  obtain ⟨m, hm, hc⟩ := exists_of_memberIndex? (Tree.mem_of_definition? hd).1 hi
  obtain rfl := Tree.eq_of_address_eq hm hx (eq_of_beq ha).symm
  rw [OperatorRemoval.applies, Bool.and_eq_true, Bool.and_eq_true, beq_iff_eq] at hc
  exact hc.1.1

/-- Events are suppressed only as members of the string class. -/
theorem drops_of_suppresses (hx : x ∈ t.survey) (hr : x.label.role = .event)
    (h : p.suppresses t x.site x.label = true) : p.drops t x.site x.label = true := by
  rw [suppresses, Bool.or_eq_true, Bool.or_eq_true] at h
  rcases h with (h | h) | h
  · obtain ⟨method, -, hu⟩ := List.any_eq_true.1 h
    rw [isUnbound, hr] at hu
    simp at hu
  · exact h
  · obtain ⟨removal, -, hp⟩ := List.any_eq_true.1 h
    rw [role_of_picks hx hp] at hr
    cases hr

/-! ## Relabelled trees -/

/-- If the same enumerations are made accessible after a relabelling, a policy can be applied if it
could. -/
theorem IsApplicable.relabel_of (h : p.IsApplicable t) (hs : t.IsShaped) (hf : t.AgreesUnder f)
    (hp : ∀ e, p.publishedAt? (t.relabel f) e = p.publishedAt? t e) :
    p.IsApplicable (t.relabel f) where
  named := (Tree.hasNamedClasses_relabel hs hf).trans h.named
  string hg := by
    rw [Tree.definition?_relabel hs hf, Option.isSome_map]
    exact h.string hg
  typed name hm := by
    rw [Tree.definition?_relabel hs hf, Option.isSome_map]
    exact h.typed name hm
  published e he := by
    rw [hp]
    exact h.published e he
  operators removal hr := by
    rw [Tree.definition?_relabel hs hf, Option.isSome_map]
    exact h.operators removal hr

/-- After a relabelling that spares what a policy sets, the policy can be applied if it could. -/
theorem IsApplicable.relabel (h : p.IsApplicable t) (hs : t.IsShaped) (hf : t.AgreesUnder f)
    (hn : KeepsEnumNames t f) : p.IsApplicable (t.relabel f) :=
  h.relabel_of hs hf (publishedAt?_relabel hs hf hn)

/-- If the same enumerations are made accessible after a relabelling, the same sites are. -/
theorem publishes_relabel (hp : ∀ e, p.publishedAt? (t.relabel f) e = p.publishedAt? t e)
    (s : Site) : p.publishes (t.relabel f) (s.relabel f) = p.publishes t s := by
  simp only [publishes, hp, Site.address_relabel]

/-- A relabelled declaration and its place. -/
theorem forall_relabel {P : Located → Prop} (h : ∀ x ∈ t.survey, P (x.relabel f)) :
    ∀ y ∈ (t.relabel f).survey, P y := by
  intro y hy
  obtain ⟨x, hx, rfl⟩ := Tree.mem_survey_relabel.1 hy
  exact h x hx

/-- A tree that obeys a policy still does after a relabelling that spares what the policy sets. -/
theorem IsObeyed.relabel (h : p.IsObeyed t) (hs : t.IsShaped) (hf : t.SparedBy f) :
    p.IsObeyed (t.relabel f) where
  values := by
    refine forall_relabel fun x hx hv => ?_
    rw [Located.label_relabel] at hv ⊢
    rw [Located.site_relabel, makesValue_relabel hs hf.agrees hx] at hv
    rw [markValue_eq_self_iff, hf.form x hx, ← markValue_eq_self_iff]
    exact h.values x hx hv
  names := by
    refine forall_relabel fun x hx => ?_
    rw [Located.label_relabel, Located.site_relabel,
      namesEnum_relabel hs hf.agrees hf.enumNames hx]
    exact h.names x hx
  published := by
    refine forall_relabel fun x hx hp => ?_
    rw [Located.label_relabel, hf.access x hx]
    rw [Located.site_relabel,
      publishes_relabel (publishedAt?_relabel hs hf.agrees hf.enumNames)] at hp
    exact h.published x hx hp
  suppressed := by
    refine forall_relabel fun x hx hp => ?_
    rw [Located.label_relabel, Located.site_relabel] at hp ⊢
    rw [suppresses_relabel hs hf.agrees hx] at hp
    rw [hf.suppression x hx, hf.form x hx, drops_relabel hs hf.agrees hx]
    exact h.suppressed x hx hp

/-! ## Trees that got events -/

/-- With events, the same declarations are dropped as members of the string class. -/
theorem drops_extend (hg : t.GainsUnder g) (s : Site) (l : Label) :
    p.drops (t.extend g) s l = p.drops t s l := by
  rw [drops, drops, Tree.definition?_extend hg, Option.any_map]
  rfl

/-- With events, anonymous enumerations of the same classes get a name. -/
theorem namesEnum_extend (hg : t.GainsUnder g) (s : Site) (l : Label) :
    p.namesEnum (t.extend g) s l = p.namesEnum t s l := by
  simp only [namesEnum, namesEnumsOf, Tree.definition?_extend hg, Option.any_map]
  rfl

/-- With events, a removal is meant for the same operator. -/
theorem picks_extend (hg : t.GainsUnder g) (removal : OperatorRemoval) (s : Site) :
    removal.picks (t.extend g) s = removal.picks t s := by
  rw [OperatorRemoval.picks, OperatorRemoval.picks, Tree.definition?_extend hg, Option.any_map]
  cases hd : t.definition? removal.className with
  | none => rfl
  | some c =>
    have hi := memberIndex?_extend hg (Tree.mem_of_definition? hd).1
      (fun l => OperatorRemoval.applies removal (.node l [])) fun l hl => by
        simp [OperatorRemoval.applies, Decl.role, hl]
    rw [← applies_eq] at hi
    exact congrArg (Option.any _) hi

/-- With events, the same declarations are suppressed. -/
theorem suppresses_extend (hg : t.GainsUnder g) (s : Site) (l : Label) :
    p.suppresses (t.extend g) s l = p.suppresses t s l := by
  simp only [suppresses, drops_extend hg, picks_extend hg]

/-- With events, the same enumerations are made accessible. -/
theorem publishedAt?_extend (hg : t.GainsUnder g) (entry : Option ClassEnum) :
    p.publishedAt? (t.extend g) entry = p.publishedAt? t entry := by
  cases entry with
  | none => rfl
  | some e =>
    rw [publishedAt?, publishedAt?, Option.bind_some, Option.bind_some,
      Tree.definition?_extend hg, Option.bind_map]
    cases hd : t.definition? e.className with
    | none => rfl
    | some c =>
      have hc : p.isEnumToPublish (t.extend g) (c.extend g) e = p.isEnumToPublish t c e := by
        funext l
        simp only [isEnumToPublish, namesEnumsOf, Tree.definition?_extend hg, Option.any_map]
        rfl
      rw [Option.bind_some, Option.bind_some, Function.comp_apply, hc,
        memberIndex?_extend hg (Tree.mem_of_definition? hd).1 (p.isEnumToPublish t c e)
          fun l hl => by simp [isEnumToPublish, hl]]
      rfl

/-- With events, the same sites are made accessible. -/
theorem publishes_extend (hg : t.GainsUnder g) (s : Site) :
    p.publishes (t.extend g) s = p.publishes t s := by
  simp only [publishes, publishedAt?_extend hg]

/-- With events, a policy can be applied if it could. -/
theorem IsApplicable.extend (h : p.IsApplicable t) (hg : t.GainsUnder g) :
    p.IsApplicable (t.extend g) where
  named := (Tree.hasNamedClasses_extend hg).trans h.named
  string hs := by
    rw [Tree.definition?_extend hg, Option.isSome_map]
    exact h.string hs
  typed name hm := by
    rw [Tree.definition?_extend hg, Option.isSome_map]
    exact h.typed name hm
  published e he := by
    rw [publishedAt?_extend hg]
    exact h.published e he
  operators removal hr := by
    rw [Tree.definition?_extend hg, Option.isSome_map]
    exact h.operators removal hr

/-- A tree that obeys a policy still does when it gets events. -/
theorem IsObeyed.extend (h : p.IsObeyed t) (hg : t.GainsUnder g) : p.IsObeyed (t.extend g) where
  values y hy hv := by
    rcases hg.cases y hy with ⟨x, hx, rfl⟩ | ⟨x, hx, i, e, he, rfl⟩
    · rw [Located.label_extend] at hv ⊢
      exact h.values x hx hv
    · rw [makesValue, Located.label_member, he.isClass] at hv
      cases hv
  names y hy := by
    rw [namesEnum_extend hg]
    rcases hg.cases y hy with ⟨x, hx, rfl⟩ | ⟨x, hx, i, e, he, rfl⟩
    · rw [Located.label_extend]
      exact h.names x hx
    · rw [Located.label_member]
      simp [namesEnum, isAnonymousEnum, he.role]
  published y hy hp := by
    have hn := role_of_publishes hy hp
    rcases hg.cases y hy with ⟨x, hx, rfl⟩ | ⟨x, hx, i, e, he, rfl⟩
    · rw [Located.label_extend]
      rw [Located.site_extend, publishes_extend hg] at hp
      exact h.published x hx hp
    · rw [Located.label_member, he.role] at hn
      cases hn
  suppressed y hy hp := by
    rcases hg.cases y hy with ⟨x, hx, rfl⟩ | ⟨x, hx, i, e, he, rfl⟩
    · rw [suppresses_extend hg, Located.label_extend] at hp
      rw [drops_extend hg, Located.label_extend]
      exact h.suppressed x hx hp
    · exact Or.inr ⟨he.event, drops_of_suppresses hy he.role hp⟩

/-! ## A tree that a policy was applied to -/

/-- What is anonymous after a policy was applied was anonymous and did not get a name. -/
theorem isAnonymousEnum_labelUnder (sound : p.IsSound) (hx : x ∈ t.survey) :
    isAnonymousEnum (p.labelUnder t x.site x.label) =
      (isAnonymousEnum x.label && !p.namesEnum t x.site x.label) := by
  have ha := Tree.agreesUnder_labelUnder p t x hx
  rw [isAnonymousEnum, ha.role, ha.isEnumeration, name_labelUnder]
  cases hn : p.namesEnum t x.site x.label with
  | true => simp [sound.named]
  | false => simp [isAnonymousEnum]

/-- The name that a declaration was to get is that which it is to get after the policy was applied. -/
theorem typedName_labelUnder (hs : t.IsShaped) (hx : x ∈ t.survey) :
    p.typedName (p.namesEnumsOf (t.normalized p) x.site.address.dropLast)
        (p.labelUnder t x.site x.label) =
      p.typedName (p.namesEnumsOf t x.site.address.dropLast) x.label := by
  have ha := Tree.agreesUnder_labelUnder p t
  have hn : p.namesEnum t x.site x.label =
      (isAnonymousEnum x.label && p.namesEnumsOf t x.site.address.dropLast) := by
    rw [namesEnum, decide_eq_true (Tree.address_ne_nil hx), Bool.true_and]
  rw [Tree.normalized, namesEnumsOf_relabel hs ha, typedName, typedName, name_labelUnder, ← hn]
  cases hnames : p.namesEnum t x.site x.label with
  | true => simp
  | false =>
    have same : isAnonymousEnum (p.labelUnder t x.site x.label) = isAnonymousEnum x.label := by
      rw [isAnonymousEnum, (ha x hx).role, (ha x hx).isEnumeration, name_labelUnder, hnames]
      rfl
    rw [same, ← hn, hnames]
    rfl

/-- A member of a class is the enumeration to be made accessible after the policy was applied just
if it was before: the name that it was to get was looked at then, too. -/
theorem isEnumToPublish_labelUnder (hs : t.IsShaped) {c : Located} (e : ClassEnum)
    (hx : x ∈ t.survey) (hc : x.site.address.dropLast = c.site.address) :
    p.isEnumToPublish (t.normalized p) (c.relabel (p.labelUnder t)) e
      (p.labelUnder t x.site x.label) = p.isEnumToPublish t c e x.label := by
  have ha := Tree.agreesUnder_labelUnder p t x hx
  rw [isEnumToPublish, isEnumToPublish, ha.role, ha.isEnumeration, Located.site_relabel,
    Site.address_relabel, ← hc, typedName_labelUnder hs hx]

/-- After a policy was applied, it makes the same enumerations accessible. -/
theorem publishedAt?_normalized (hs : t.IsShaped) (entry : Option ClassEnum) :
    p.publishedAt? (t.normalized p) entry = p.publishedAt? t entry := by
  cases entry with
  | none => rfl
  | some e =>
    rw [publishedAt?, publishedAt?, Option.bind_some, Option.bind_some, Tree.normalized,
      Tree.definition?_relabel hs (Tree.agreesUnder_labelUnder p t), Option.bind_map]
    cases hd : t.definition? e.className with
    | none => rfl
    | some c =>
      rw [Option.bind_some, Option.bind_some, Function.comp_apply]
      refine congrArg (Option.map _) ?_
      exact memberIndex?_relabel (Tree.mem_of_definition? hd).1 _ (p.isEnumToPublish t c e)
        fun y hy hc => isEnumToPublish_labelUnder hs e hy hc

/-- After a policy was applied, it makes accessible what it made before. -/
theorem publishes_normalized (hs : t.IsShaped) (s : Site) :
    p.publishes (t.normalized p) (s.relabel (p.labelUnder t)) = p.publishes t s :=
  publishes_relabel (publishedAt?_normalized hs) s

/-- A policy can be applied again. -/
theorem IsApplicable.normalized (h : p.IsApplicable t) (hs : t.IsShaped) :
    p.IsApplicable (t.normalized p) :=
  h.relabel_of hs (Tree.agreesUnder_labelUnder p t) (publishedAt?_normalized hs)

/-- A tree obeys the policy that was applied to it. -/
theorem isObeyed_normalized (sound : p.IsSound) (hs : t.IsShaped) :
    p.IsObeyed (t.normalized p) where
  values := by
    refine forall_relabel fun x hx hv => ?_
    rw [Located.label_relabel] at hv ⊢
    rw [Located.site_relabel, makesValue_relabel hs (Tree.agreesUnder_labelUnder p t) hx] at hv
    rw [markValue_eq_self_iff, form_labelUnder, if_pos hv, ← markValue_eq_self_iff,
      markValue_markValue]
  names := by
    refine forall_relabel fun x hx => ?_
    rw [Located.label_relabel, namesEnum, isAnonymousEnum_labelUnder sound hx, Tree.normalized,
      namesEnumsOf_relabel hs (Tree.agreesUnder_labelUnder p t), Located.site_relabel,
      Site.address_relabel, namesEnum]
    cases isAnonymousEnum x.label <;>
      cases decide (x.site.address ≠ []) && p.namesEnumsOf t x.site.address.dropLast <;> rfl
  published := by
    refine forall_relabel fun x hx hp => ?_
    rw [Located.site_relabel, publishes_normalized hs] at hp
    rw [Located.label_relabel, access_labelUnder, if_pos hp]
  suppressed := by
    refine forall_relabel fun x hx hp => Or.inl ?_
    rw [Located.site_relabel, Located.label_relabel, Tree.normalized,
      suppresses_relabel hs (Tree.agreesUnder_labelUnder p t) hx] at hp
    rw [Located.label_relabel, suppression_labelUnder, if_pos hp]

end Policy

end Bindery
