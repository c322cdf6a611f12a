import Bindery.Proofs.Change
import Bindery.Proofs.Loaded
import Mathlib.Data.List.Forall2

/-!
# Looking classes up

A class is found by its full name among the classes of a tree. Neither the names that count for
this nor the order of the classes change when a tree is relabelled with agreeing labels or gets
events, so what is found before is found afterwards, at the same place.
-/

namespace Bindery

/-- A condition need only be the same on the members of a list to find the same one. -/
theorem find?_congr_mem {α : Type} {p q : α → Bool} {as : List α}
    (h : ∀ a ∈ as, p a = q a) : as.find? p = as.find? q := by
  induction as with
  | nil => rfl
  | cons a as ih =>
    rw [List.find?_cons, List.find?_cons, h a List.mem_cons_self,
      ih fun b hb => h b (List.mem_cons_of_mem _ hb)]

/-! ## Full names -/

namespace Chain

/-- Chains of one declaration at different times, label by label. -/
abbrev Agree : Chain → Chain → Prop := List.Forall₂ Label.Agrees

variable {c c' : Chain}

/-- Where declarations of any kind can stand in, the names below the unit stay. -/
theorem Agree.names (h : c.Agree c') (ho : ∀ l ∈ c, l.form.isOpen = true) :
    c'.belowUnit.map Label.name = c.belowUnit.map Label.name := by
  rw [belowUnit, belowUnit, List.map_reverse, List.map_reverse]
  refine congrArg List.reverse ?_
  induction h with
  | nil => rfl
  | @cons l l' c c' hl _ ih =>
    rw [List.takeWhile_cons, List.takeWhile_cons, hl.isUnit]
    split
    · rw [List.map_cons, List.map_cons, hl.name (ho l List.mem_cons_self),
        ih fun m hm => ho m (List.mem_cons_of_mem _ hm)]
    · rfl

/-- Names in the header below the unit stay. -/
theorem Agree.headerNames (h : c.Agree c') :
    c'.belowUnit.map Label.headerName = c.belowUnit.map Label.headerName := by
  rw [belowUnit, belowUnit, List.map_reverse, List.map_reverse]
  refine congrArg List.reverse ?_
  induction h with
  | nil => rfl
  | @cons l l' c c' hl _ ih =>
    rw [List.takeWhile_cons, List.takeWhile_cons, hl.isUnit]
    split
    · rw [List.map_cons, List.map_cons, hl.headerName, ih]
    · rfl

/-- The full name of what declarations of any kind can stand in stays. -/
theorem Agree.qualifiedName (h : c.Agree c') (ho : ∀ l ∈ c, l.form.isOpen = true) :
    c'.qualifiedName = c.qualifiedName := by
  have hn := congrArg (List.map Value.display) (h.names ho)
  rw [List.map_map, List.map_map] at hn
  exact congrArg ("::".intercalate ·) hn

/-- What declarations of any kind can stand in keeps having a full name. -/
theorem Agree.isNamed (h : c.Agree c') (ho : ∀ l ∈ c, l.form.isOpen = true) :
    c'.isNamed = c.isNamed := by
  have hn := congrArg (List.all · Value.isText) (h.names ho)
  rwa [List.all_map, List.all_map] at hn

/-- The full name in the header stays. -/
theorem Agree.qualifiedHeaderName (h : c.Agree c') :
    c'.qualifiedHeaderName = c.qualifiedHeaderName := by
  have hn := congrArg (List.map Value.display) h.headerNames
  rw [List.map_map, List.map_map] at hn
  exact congrArg ("::".intercalate ·) hn

/-- A full name in the header keeps being one. -/
theorem Agree.isHeaderNamed (h : c.Agree c') : c'.isHeaderNamed = c.isHeaderNamed := by
  have hn := congrArg (List.all · Value.isText) h.headerNames
  rwa [List.all_map, List.all_map] at hn

/-- The path of the unit stays. -/
theorem Agree.rootPath (h : c.Agree c') : c'.rootPath = c.rootPath := by
  rw [Chain.rootPath, Chain.rootPath]
  induction h with
  | nil => rfl
  | @cons l l' c c' hl hc ih =>
    cases hc with
    | nil =>
      have hu := hl.form
      cases hf : l.form <;> cases hf' : l'.form <;> simp_all [Form.unmarked]
    | cons hm hc => rwa [List.getLast?_cons_cons, List.getLast?_cons_cons]

end Chain

namespace Tree

variable {t : Tree} {f : Site → Label → Label}

/-- Every label of a tree turns into one that agrees with it. -/
def AgreesUnder (t : Tree) (f : Site → Label → Label) : Prop :=
  ∀ x ∈ t.survey, x.label.Agrees (f x.site x.label)

/-- A relabelled declaration agrees with the declaration. -/
theorem AgreesUnder.label (hf : t.AgreesUnder f) {x : Located} (hx : x ∈ t.survey) :
    x.label.Agrees (x.relabel f).label := by
  rw [Located.label_relabel]
  exact hf x hx

/-- The chains of a relabelled tree are those of the tree at another time. -/
theorem AgreesUnder.chain (hf : t.AgreesUnder f) :
    ∀ x ∈ t.survey, x.chain.Agree (x.relabel f).chain := by
  refine survey_induction ?_ ?_
  · intro i d hd
    rw [Located.chain_relabel]
    exact .cons (hf _ (unit_mem_survey hd)) .nil
  · intro x hx ih i m hm
    have hl := hf (x.member i m) (member_mem_survey hx hm)
    rw [← Located.label_relabel f, Located.relabel_member] at hl
    rw [Located.relabel_member, Located.chain_member, Located.chain_member]
    exact .cons hl ih

/-- The scope of a declaration agrees with its scope after a relabelling. -/
theorem AgreesUnder.scope (hf : t.AgreesUnder f) {x : Located} (hx : x ∈ t.survey) :
    x.site.scope.Agree (x.site.relabel f).scope := by
  have hc := hf.chain x hx
  rw [Located.chain_relabel] at hc
  exact (List.forall₂_cons.1 hc).2

/-- The chain of a class in a shaped tree is open. -/
theorem IsShaped.isOpen_of_isClass (hs : t.IsShaped) {x : Located} (hx : x ∈ t.survey)
    (hc : x.label.form.isClass = true) : ∀ l ∈ x.chain, l.form.isOpen = true := by
  intro l hl
  have ho := Form.isOpen_of_isClass hc
  rcases List.mem_cons.1 hl with rfl | hl
  · exact ho
  · refine hs.items x hx ?_ l hl
    cases hf : x.label.form <;> first | rfl | simp [hf, Form.isOpen] at ho

/-- What the form of declarations says of their places holds at any stage. -/
theorem IsShaped.atStage (hs : t.IsShaped) (stage : Stage) : IsShaped { t with stage } :=
  ⟨hs.unit, hs.items, hs.methods, hs.scopes⟩

/-- Every label in the scope of a declaration after a relabelling is one of an owner before. -/
theorem AgreesUnder.exists_of_mem_scope (hf : t.AgreesUnder f) {x : Located} (hx : x ∈ t.survey)
    {l' : Label} (hl' : l' ∈ (x.site.relabel f).scope) : ∃ l ∈ x.site.scope, l.Agrees l' := by
  obtain ⟨n, hn, rfl⟩ := List.getElem_of_mem hl'
  have hn' : n < x.site.scope.length := by
    rw [(hf.scope hx).length_eq]
    exact hn
  exact ⟨_, List.getElem_mem hn', (hf.scope hx).get hn' hn⟩

/-- A relabelled tree is shaped if it was. -/
theorem IsShaped.relabel (hs : t.IsShaped) (hf : t.AgreesUnder f) : (t.relabel f).IsShaped where
  unit y hy := by
    obtain ⟨x, hx, rfl⟩ := mem_survey_relabel.1 hy
    rw [Located.label_relabel, (hf x hx).isUnit, hs.unit x hx, ← List.length_eq_zero_iff,
      ← List.length_eq_zero_iff, (hf.scope hx).length_eq]
    rfl
  items y hy hi := by
    obtain ⟨x, hx, rfl⟩ := mem_survey_relabel.1 hy
    rw [Located.label_relabel, (hf x hx).isEnumItem] at hi
    intro l' hl'
    obtain ⟨l, hl, ha⟩ := hf.exists_of_mem_scope hx hl'
    rw [ha.isOpen]
    exact hs.items x hx hi l hl
  methods y hy hr hn := by
    obtain ⟨x, hx, rfl⟩ := mem_survey_relabel.1 hy
    rw [Located.label_relabel, (hf x hx).role] at hr
    rw [Located.label_relabel, (hf x hx).isMethod]
    refine hs.methods x hx hr fun h => hn ?_
    have hl := (hf.scope hx).length_eq
    rw [h] at hl
    exact List.length_eq_zero_iff.1 hl.symm
  scopes y hy l' hl' := by
    obtain ⟨x, hx, rfl⟩ := mem_survey_relabel.1 hy
    obtain ⟨l, hl, ha⟩ := hf.exists_of_mem_scope hx hl'
    rw [ha.isScope]
    exact hs.scopes x hx l hl

/-- Whether every class has a full name is a matter of the classes. -/
theorem hasNamedClasses_eq (t : Tree) :
    t.hasNamedClasses = (t.survey.filter fun x => x.label.form.isClass).all fun x =>
      x.chain.isNamed := by
  rw [hasNamedClasses, List.all_filter]

/-- After a relabelling classes have full names if they had. -/
theorem hasNamedClasses_relabel (hs : t.IsShaped) (hf : t.AgreesUnder f) :
    (t.relabel f).hasNamedClasses = t.hasNamedClasses := by
  rw [hasNamedClasses, hasNamedClasses, survey_relabel, List.all_map]
  rw [Bool.eq_iff_iff, List.all_eq_true, List.all_eq_true]
  refine forall₂_congr fun x hx => ?_
  rw [Function.comp_apply, Located.label_relabel, (hf x hx).isClass]
  cases hc : x.label.form.isClass with
  | false => rfl
  | true => rw [(hf.chain x hx).isNamed (hs.isOpen_of_isClass hx hc)]

/-- Whether a declaration is the definition of a class of the given full name. -/
def isDefinition (name : String) (x : Located) : Bool :=
  (x.label.form.isClass && x.qualifiedName == name) &&
    x.label.form.classTraits?.any fun c => !c.isIncomplete

/-- The class of a full name is the first that defines it. -/
theorem findCompleteClass?_eq (t : Tree) (name : String) :
    t.findCompleteClass? name = t.survey.find? (isDefinition name) := by
  rw [findCompleteClass?, findClasses, List.find?_filter]
  simp only [Bool.decide_and, Bool.decide_eq_true]
  rfl

/-- A relabelled class defines what it defined. -/
theorem isDefinition_relabel (hs : t.IsShaped) (hf : t.AgreesUnder f) (name : String)
    {x : Located} (hx : x ∈ t.survey) :
    isDefinition name (x.relabel f) = isDefinition name x := by
  have hl := hf x hx
  rw [isDefinition, isDefinition, Located.label_relabel, hl.isClass,
    hl.congr_form (fun g => g.classTraits?.any fun c => !c.isIncomplete)
      Form.any_classTraits?_unmarked]
  cases hc : x.label.form.isClass with
  | false => rfl
  | true =>
    rw [Located.qualifiedName, (hf.chain x hx).qualifiedName (hs.isOpen_of_isClass hx hc)]
    rfl

/-- What is found in a relabelled tree is what was found before. -/
theorem findCompleteClass?_relabel (hs : t.IsShaped) (hf : t.AgreesUnder f) (name : String) :
    (t.relabel f).findCompleteClass? name =
      (t.findCompleteClass? name).map (Located.relabel f) := by
  rw [findCompleteClass?_eq, findCompleteClass?_eq, survey_relabel, List.find?_map]
  refine congrArg (Option.map _) (find?_congr_mem fun x hx => ?_)
  exact isDefinition_relabel hs hf name hx

/-- What is found is a declaration of the tree, and a class. -/
theorem mem_of_findCompleteClass? {name : String} {x : Located}
    (h : t.findCompleteClass? name = some x) : x ∈ t.survey ∧ x.label.form.isClass = true := by
  rw [findCompleteClass?_eq] at h
  refine ⟨List.mem_of_find?_eq_some h, ?_⟩
  have hd := List.find?_some h
  rw [isDefinition, Bool.and_eq_true, Bool.and_eq_true] at hd
  exact hd.1.1

/-! ## Trees that got events -/

variable {g : Site → Decl → List Decl}

/-- What is appended to a tree are events of classes that are generated. -/
def GainsUnder (t : Tree) (g : Site → Decl → List Decl) : Prop :=
  ∀ x ∈ t.survey, ∀ e ∈ g x.site x.decl, x.MayGain e

/-- A declaration with its events is a declaration of the tree or one of its events. -/
theorem GainsUnder.cases (hg : t.GainsUnder g) :
    ∀ y ∈ (t.extend g).survey, (∃ x ∈ t.survey, x.extend g = y) ∨
      ∃ x ∈ t.survey, ∃ i e, x.MayGain e ∧ (x.extend g).member i e = y := by
  intro y hy
  rcases survey_extend_cases (fun x hx e he => (hg x hx e he).leaf) y hy with
    h | ⟨x, hx, j, e, he, hy⟩
  · exact Or.inl h
  · exact Or.inr ⟨x, hx, _, e, hg x hx e (List.mem_of_getElem? he), hy⟩

/-- Of the classes, a tree has no other ones when it gets events. -/
theorem filter_survey_of_gainsUnder (hg : t.GainsUnder g) (p : Site → Label → Bool) :
    ((t.extend g).survey.filter fun y => y.label.form.isClass && p y.site y.label) =
      (t.survey.filter fun x => x.label.form.isClass && p x.site x.label).map
        (Located.extend g) := by
  refine filter_survey_extend (p := fun s l => l.form.isClass && p s l) fun x hx e he => ?_
  have hm := hg x hx e he
  refine ⟨hm.leaf, fun r => ?_⟩
  rw [hm.isClass, Bool.false_and]

/-- A tree that gets events is shaped if it was. -/
theorem IsShaped.extend (hs : t.IsShaped) (hg : t.GainsUnder g) : (t.extend g).IsShaped where
  unit y hy := by
    rcases hg.cases y hy with ⟨x, hx, rfl⟩ | ⟨x, hx, i, e, he, rfl⟩
    · rw [Located.label_extend]
      exact hs.unit x hx
    · rw [Located.label_member, he.isUnit]
      simp [Located.chain, Site.chain]
  items y hy hi := by
    rcases hg.cases y hy with ⟨x, hx, rfl⟩ | ⟨x, hx, i, e, he, rfl⟩
    · rw [Located.label_extend] at hi
      exact hs.items x hx hi
    · rw [Located.scope_member, Located.chain_extend]
      exact hs.isOpen_of_isClass hx he.owner
  methods y hy hr hn := by
    rcases hg.cases y hy with ⟨x, hx, rfl⟩ | ⟨x, hx, i, e, he, rfl⟩
    · rw [Located.label_extend] at hr ⊢
      exact hs.methods x hx hr hn
    · rw [Located.label_member, he.role] at hr
      cases hr
  scopes y hy := by
    rcases hg.cases y hy with ⟨x, hx, rfl⟩ | ⟨x, hx, i, e, he, rfl⟩
    · exact hs.scopes x hx
    · rw [Located.scope_member, Located.chain_extend]
      exact fun l hl => Form.isScope_of_isOpen (hs.isOpen_of_isClass hx he.owner l hl)

/-- With events classes have full names if they had. -/
theorem hasNamedClasses_extend (hg : t.GainsUnder g) :
    (t.extend g).hasNamedClasses = t.hasNamedClasses := by
  have hf := filter_survey_of_gainsUnder hg fun _ _ => true
  simp only [Bool.and_true] at hf
  rw [hasNamedClasses_eq, hasNamedClasses_eq, hf, List.all_map]
  exact congrArg _ (funext fun x => congrArg Chain.isNamed (x.chain_extend g))

/-- What is found in a tree that got events is what was found before. -/
theorem findCompleteClass?_extend (hg : t.GainsUnder g) (name : String) :
    (t.extend g).findCompleteClass? name =
      (t.findCompleteClass? name).map (Located.extend g) := by
  have hf : (t.extend g).findClasses name = (t.findClasses name).map (Located.extend g) :=
    filter_survey_of_gainsUnder hg fun s l => (s.chain l).qualifiedName == name
  rw [findCompleteClass?, hf, List.find?_map, findCompleteClass?]
  refine congrArg (Option.map _) (find?_congr_mem fun x _ => ?_)
  rw [Function.comp_apply, Located.label_extend]

end Tree

end Bindery
