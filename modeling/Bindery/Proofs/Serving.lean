import Bindery.Proofs.Finish

/-!
# Trees that have their events

A tree is served by a rule if in every class that is generated nothing is left to be done for any
method. Attaching the events of the rule leads to such a tree, and it stays so when it gets events of
other rules, as events take the place of no method. In a tree that is served, attaching comes to an
end and attaches nothing. Main statements: `isServed_withEvents`, `IsServed.extend`,
`IsServed.withEvents_eq_self`.
-/

namespace Bindery

namespace Decl

/-- Appending members below the declarations of a list leaves their labels alone. -/
theorem map_label_extendAll (f : Site → Decl → List Decl) (ds : List Decl) (s : Site) :
    ∀ i, (extendAll f ds s i).map label = ds.map label := by
  induction ds with
  | nil => exact fun i => rfl
  | cons d ds ih =>
    intro i
    obtain ⟨l, ms⟩ := d
    rw [extendAll, List.map_cons, List.map_cons, ih]
    rfl

/-- The labels of the methods are those of the members in the role of methods. -/
theorem map_label_methods (d : Decl) :
    d.methods.map label = (d.members.map label).filter fun l => l.role == .method := by
  rw [List.filter_map]
  rfl

mutual

/-- Appending nothing anywhere below a declaration changes nothing. -/
theorem extend_eq_self {f : Site → Decl → List Decl} (d : Decl) (s : Site)
    (h : ∀ x ∈ survey d s, f x.site x.decl = []) : extend f d s = d :=
  match d with
  | node l ms => by
    have hl : f s (node l ms) = [] := h ⟨s, node l ms⟩ List.mem_cons_self
    rw [extend, extendAll_eq_self ms (s.inside l) 0 fun x hx => h x (List.mem_cons_of_mem _ hx),
      hl, List.append_nil]
termination_by structural d

/-- Appending nothing anywhere below the declarations of a list changes nothing. -/
theorem extendAll_eq_self {f : Site → Decl → List Decl} (ds : List Decl) (s : Site) (i : Nat)
    (h : ∀ x ∈ surveyAll ds s i, f x.site x.decl = []) : extendAll f ds s i = ds :=
  match ds with
  | [] => rfl
  | d :: ds => by
    rw [extendAll, extend_eq_self d (s.child i) fun x hx => h x (List.mem_append_left _ hx),
      extendAll_eq_self ds s (i + 1) fun x hx => h x (List.mem_append_right _ hx)]
termination_by structural ds

end

end Decl

namespace EventRule

variable {rule : EventRule} {x : Located} {g : Site → Decl → List Decl}

/-- Whether a method is adapted is a matter of the labels of the members. -/
theorem isAdapted_congr {ms ms' : List Decl} (h : ms'.map Decl.label = ms.map Decl.label) (i : Nat)
    (method : Label) : rule.isAdapted ms' i method = rule.isAdapted ms i method := by
  have hany : ∀ ms : List Decl, rule.isAdapted ms i method = (ms.map Decl.label).any fun l =>
      l.role == .event && rule.adapts i method (.node l []) := by
    intro ms
    rw [List.any_map]
    rfl
  rw [hany, hany, h]

/-- The labels of the members after an extension. -/
theorem map_label_members_extend (g : Site → Decl → List Decl) (x : Located) :
    (x.extend g).decl.members.map Decl.label =
      (x.decl.members ++ g x.site x.decl).map Decl.label := by
  rw [Located.members_extend, List.map_append, Decl.map_label_extendAll, List.map_append]

/-- Events take the place of no method, so the labels of the methods stay as they are. -/
theorem map_label_methods_extend (hg : ∀ e ∈ g x.site x.decl, e.label.role = .event) :
    (x.extend g).decl.methods.map Decl.label = x.decl.methods.map Decl.label := by
  have hnone : ((g x.site x.decl).map Decl.label).filter (fun l => l.role == .method) = [] := by
    rw [List.filter_eq_nil_iff, List.forall_mem_map]
    intro e he
    rw [hg e he]
    simp
  rw [Decl.map_label_methods, map_label_members_extend, List.map_append, List.filter_append, hnone,
    List.append_nil, Decl.map_label_methods]

/-- A method after an extension was one before. -/
theorem exists_method_of_extend (hg : ∀ e ∈ g x.site x.decl, e.label.role = .event) {i : Nat}
    {m' : Decl} (h : (x.extend g).decl.methods[i]? = some m') :
    ∃ m, x.decl.methods[i]? = some m ∧ m.label = m'.label := by
  have hi : (x.decl.methods.map Decl.label)[i]? = some m'.label := by
    rw [← map_label_methods_extend hg, List.getElem?_map, h, Option.map_some]
  rw [List.getElem?_map] at hi
  exact Option.map_eq_some_iff.1 hi

/-- If something is done for every method once a class gets its events, it is still done
afterwards. -/
theorem isServed_extend (hg : ∀ e ∈ g x.site x.decl, e.label.role = .event)
    (h : ∀ i m, x.decl.methods[i]? = some m → (x.site.inside x.label).isGenerated m.label = true →
      rule.Serves (x.decl.members ++ g x.site x.decl) i m.label) : rule.IsServed (x.extend g) := by
  intro i m' hm' hgen
  obtain ⟨m, hm, hl⟩ := exists_method_of_extend hg hm'
  rw [Located.label_extend, Located.site_extend, ← hl] at hgen
  obtain ⟨b, hq, hb⟩ := h i m hm hgen
  rw [← hl]
  exact ⟨b, hq, fun ht => (isAdapted_congr (map_label_members_extend g x) i m.label).trans (hb ht)⟩

end EventRule

namespace Tree

variable {t : Tree} {rule : EventRule} {g : Site → Decl → List Decl}

/-- A tree to which nothing is appended anywhere stays as it is. -/
theorem extend_eq_self (h : ∀ x ∈ t.survey, g x.site x.decl = []) : t.extend g = t :=
  congrArg (Tree.mk t.stage) (Decl.extendAll_eq_self t.units Site.top 0 h)

/-- Nothing is left to be done for the methods of classes that are generated. -/
def IsServed (rule : EventRule) (t : Tree) : Prop :=
  ∀ x ∈ t.survey, isEventful x.site x.label = true → rule.IsServed x

/-- Whatever was a class before it got events is one afterwards, and nothing else. -/
theorem exists_of_isEventful_extend (hg : t.GainsUnder g) {y : Located}
    (hy : y ∈ (t.extend g).survey) (h : isEventful y.site y.label = true) :
    ∃ x ∈ t.survey, isEventful x.site x.label = true ∧ x.extend g = y := by
  rcases hg.cases y hy with ⟨x, hx, rfl⟩ | ⟨x, hx, i, e, he, rfl⟩
  · rw [Located.label_extend] at h
    exact ⟨x, hx, h, rfl⟩
  · rw [isEventful, Located.label_member, he.isClass, Bool.false_and] at h
    cases h

/-- A tree that got the events of a rule is served by it, if attaching came to an end. -/
theorem isServed_withEvents (h : t.IsAttachable rule) : (t.withEvents rule).IsServed rule := by
  intro y hy h'
  have gains := t.gainsUnder_additions rule
  obtain ⟨x, hx, hev, rfl⟩ := exists_of_isEventful_extend gains hy h'
  refine EventRule.isServed_extend (fun e he => (gains x hx e he).role) fun i m hm hgen => ?_
  have ha : rule.additions x.site x.decl = (rule.roster x.site x.decl).attached := if_pos hev
  rw [ha]
  exact EventRule.serves_of_roster (h x hx hev) hm hgen

/-- A tree that is served stays so when it gets events of any kind. -/
theorem IsServed.extend (h : t.IsServed rule) (hg : t.GainsUnder g) :
    (t.extend g).IsServed rule := by
  intro y hy h'
  obtain ⟨x, hx, hev, rfl⟩ := exists_of_isEventful_extend hg hy h'
  exact EventRule.isServed_extend (fun e he => (hg x hx e he).role) fun i m hm hgen =>
    (h x hx hev i m hm hgen).append _

/-- On a tree that is served, attaching comes to an end. -/
theorem IsServed.isAttachable (h : t.IsServed rule) : t.IsAttachable rule :=
  fun x hx hev => (EventRule.roster_of_isServed (h x hx hev)).2

/-- A tree that is served stays as it is when it gets the events of the rule. -/
theorem IsServed.withEvents_eq_self (h : t.IsServed rule) : t.withEvents rule = t := by
  refine extend_eq_self fun x hx => ?_
  rw [EventRule.additions]
  split
  · next hev => exact (EventRule.roster_of_isServed (h x hx hev)).1
  · rfl

end Tree

/-- Enters a declaration into an index of base classes. -/
def BaseIndex.enter (index : BaseIndex) (x : Located) : BaseIndex :=
  match x.label.form.classTraits? with
  | some traits => index.append x.qualifiedName traits.bases
  | none => index

/-- Only classes are entered into an index of base classes. -/
theorem Tree.baseIndex_eq (t : Tree) :
    t.baseIndex = (t.survey.filter fun x => x.label.form.isClass).foldl BaseIndex.enter [] := by
  have henter : ∀ (index : BaseIndex) (x : Located),
      (if x.label.form.isClass = true then index.enter x else index) = index.enter x := by
    intro index x
    rw [BaseIndex.enter, Form.isClass]
    cases x.label.form.classTraits? <;> rfl
  rw [List.foldl_filter]
  simp only [henter]
  rfl

/-- With events classes have the base classes that they had. -/
theorem Tree.baseIndex_extend {t : Tree} {g : Site → Decl → List Decl} (hg : t.GainsUnder g) :
    (t.extend g).baseIndex = t.baseIndex := by
  have hf := filter_survey_of_gainsUnder hg fun _ _ => true
  simp only [Bool.and_true] at hf
  have henter : ∀ (index : BaseIndex) (x : Located),
      index.enter (x.extend g) = index.enter x := by
    intro index x
    rw [BaseIndex.enter, Located.label_extend, Located.qualifiedName, Located.chain_extend]
    rfl
  rw [baseIndex_eq, baseIndex_eq, hf, List.foldl_map]
  simp only [henter]

end Bindery
