import Bindery.Proofs.Walk
import Mathlib.Data.List.Infix

/-!
# Places in a tree

Every declaration of a tree has an address of its own, its owners stand at the beginnings of that
address, and their labels are the rest of its chain. What holds along a chain can therefore be
said of the declarations above.
-/

namespace Bindery

namespace Tree

/-- A declaration of a tree is a unit or the member of another declaration of the tree. -/
theorem survey_induction {t : Tree} {P : Located → Prop}
    (unit : ∀ i d, t.units[i]? = some d → P ⟨Site.top.child i, d⟩)
    (member : ∀ x ∈ t.survey, P x → ∀ i m, x.decl.members[i]? = some m → P (x.member i m)) :
    ∀ x ∈ t.survey, P x := by
  intro x hx
  obtain ⟨j, d, hd, hx⟩ := Decl.mem_surveyAll.1 hx
  rw [Nat.zero_add] at hx
  have h := Decl.survey_induction (P := fun x => x ∈ t.survey ∧ P x)
    (fun y hy i m hm => ⟨?_, member y hy.1 hy.2 i m hm⟩) d _ ⟨?_, unit j d hd⟩ x hx
  · exact h.2
  · obtain ⟨k, e, he, hy⟩ := Decl.mem_surveyAll.1 hy.1
    exact Decl.mem_surveyAll.2 ⟨k, e, he, Decl.member_mem_survey hy hm⟩
  · refine Decl.mem_surveyAll.2 ⟨j, d, hd, Decl.mem_survey.2 (Or.inl ?_)⟩
    rw [Nat.zero_add]

/-- The units are declarations of the tree. -/
theorem unit_mem_survey {t : Tree} {i : Nat} {d : Decl} (h : t.units[i]? = some d) :
    (⟨Site.top.child i, d⟩ : Located) ∈ t.survey := by
  refine Decl.mem_surveyAll.2 ⟨i, d, h, Decl.mem_survey.2 (Or.inl ?_)⟩
  rw [Nat.zero_add]

/-- The members of a declaration of the tree are declarations of the tree. -/
theorem member_mem_survey {t : Tree} {x : Located} (hx : x ∈ t.survey) {i : Nat} {m : Decl}
    (hm : x.decl.members[i]? = some m) : x.member i m ∈ t.survey := by
  obtain ⟨k, e, he, hy⟩ := Decl.mem_surveyAll.1 hx
  exact Decl.mem_surveyAll.2 ⟨k, e, he, Decl.member_mem_survey hy hm⟩

/-- How a declaration of a tree comes to be one. -/
theorem survey_cases {t : Tree} {x : Located} (hx : x ∈ t.survey) :
    (∃ i d, t.units[i]? = some d ∧ x = ⟨Site.top.child i, d⟩) ∨
      ∃ y ∈ t.survey, ∃ i m, y.decl.members[i]? = some m ∧ x = y.member i m := by
  refine survey_induction (P := fun x => (∃ i d, t.units[i]? = some d ∧
    x = ⟨Site.top.child i, d⟩) ∨ ∃ y ∈ t.survey, ∃ i m, y.decl.members[i]? = some m ∧
      x = y.member i m) ?_ ?_ x hx
  · intro i d hd
    exact Or.inl ⟨i, d, hd, rfl⟩
  · intro y hy _ i m hm
    exact Or.inr ⟨y, hy, i, m, hm, rfl⟩

/-- A chain is as long as the address. -/
theorem length_chain {t : Tree} {x : Located} (hx : x ∈ t.survey) :
    x.chain.length = x.site.address.length := by
  refine survey_induction (P := fun x => x.chain.length = x.site.address.length) ?_ ?_ x hx
  · intro i d _
    rfl
  · intro y _ ih i m _
    simp [ih]

/-- No two declarations of a tree have the same address. -/
theorem eq_of_address_eq {t : Tree} {x y : Located} (hx : x ∈ t.survey) (hy : y ∈ t.survey)
    (h : x.site.address = y.site.address) : x = y := by
  revert y
  refine survey_induction (P := fun x => ∀ {y}, y ∈ t.survey →
    x.site.address = y.site.address → x = y) ?_ ?_ x hx
  · intro i d hd y hy h
    rcases survey_cases hy with ⟨j, e, he, rfl⟩ | ⟨z, hz, j, m, hm, rfl⟩
    · have hij : i = j := by simpa [Site.child, Site.top] using h
      subst hij
      obtain rfl : d = e := Option.some.inj (hd.symm.trans he)
      rfl
    · have hl := congrArg List.length h
      have hz' := length_chain hz
      simp only [Site.child, Site.top, Located.address_member, List.length_append,
        List.length_cons, List.length_nil] at hl
      have : z.chain.length = z.site.scope.length + 1 := rfl
      omega
  · intro w hw ih i m hm y hy h
    rcases survey_cases hy with ⟨j, e, he, rfl⟩ | ⟨z, hz, j, e, he, rfl⟩
    · have hl := congrArg List.length h
      have hw' := length_chain hw
      simp only [Site.child, Site.top, Located.address_member, List.length_append,
        List.length_cons, List.length_nil] at hl
      have : w.chain.length = w.site.scope.length + 1 := rfl
      omega
    · obtain ⟨hwz, hij⟩ := List.append_inj' h rfl
      obtain rfl := ih hz hwz
      obtain rfl : i = j := by simpa using hij
      obtain rfl : m = e := Option.some.inj (hm.symm.trans he)
      rfl

/-- Every address of a tree begins with the address of a unit. -/
theorem address_ne_nil {t : Tree} {x : Located} (hx : x ∈ t.survey) : x.site.address ≠ [] := by
  intro h
  have hl := length_chain hx
  rw [h] at hl
  exact absurd hl (by simp [Located.chain, Site.chain])

/-- The declarations at the beginnings of an address are those whose chains end the chain. -/
theorem chain_suffix_of_address {t : Tree} {x y : Located} (hx : x ∈ t.survey)
    (hy : y ∈ t.survey) (h : y.site.address <+: x.site.address) : y.chain <:+ x.chain := by
  revert y
  refine survey_induction (P := fun x => ∀ {y}, y ∈ t.survey →
    y.site.address <+: x.site.address → y.chain <:+ x.chain) ?_ ?_ x hx
  · intro i d hd y hy h
    rcases List.prefix_concat_iff.1 h with h | h
    · rw [eq_of_address_eq hy (unit_mem_survey hd) h]
    · exact absurd (List.prefix_nil.1 h) (address_ne_nil hy)
  · intro z hz ih i m hm y hy h
    rcases List.prefix_concat_iff.1 h with h | h
    · rw [eq_of_address_eq hy (member_mem_survey hz hm) h]
    · exact (ih hy h).trans (List.suffix_cons _ _)

/-- Whatever stands in the scope of a declaration is the label of an owner. -/
theorem exists_owner_of_suffix {t : Tree} {x : Located} (hx : x ∈ t.survey) {l : Label}
    {outer : Chain} (h : l :: outer <:+ x.chain) :
    ∃ y ∈ t.survey, y.site.address <+: x.site.address ∧ y.label = l ∧ y.site.scope = outer := by
  revert h
  refine survey_induction (P := fun x => l :: outer <:+ x.chain → ∃ y ∈ t.survey,
    y.site.address <+: x.site.address ∧ y.label = l ∧ y.site.scope = outer) ?_ ?_ x hx
  · intro i d hd h
    have hl : l :: outer = [d.label] := by
      rcases List.suffix_cons_iff.1 h with h | h
      · exact h
      · exact absurd (List.suffix_nil.1 h) (by simp)
    obtain ⟨rfl, rfl⟩ := List.cons.inj hl
    exact ⟨_, unit_mem_survey hd, List.prefix_rfl, rfl, rfl⟩
  · intro y hy ih i m hm h
    rcases List.suffix_cons_iff.1 h with h | h
    · obtain ⟨rfl, rfl⟩ := List.cons.inj h
      exact ⟨_, member_mem_survey hy hm, List.prefix_rfl, rfl, rfl⟩
    · obtain ⟨z, hz, hzy, hl, hs⟩ := ih h
      exact ⟨z, hz, hzy.trans (List.prefix_append _ _), hl, hs⟩

/-- A label with some property stands in a chain just if a declaration at or above has it. -/
theorem mem_chain_iff {t : Tree} {x : Located} (hx : x ∈ t.survey) {l : Label} :
    l ∈ x.chain ↔ ∃ y ∈ t.survey, y.site.address <+: x.site.address ∧ y.label = l := by
  constructor
  · intro h
    obtain ⟨inner, outer, he⟩ := List.append_of_mem h
    obtain ⟨y, hy, hp, hl, -⟩ := exists_owner_of_suffix hx ⟨inner, he.symm⟩
    exact ⟨y, hy, hp, hl⟩
  · rintro ⟨y, hy, hp, rfl⟩
    exact (chain_suffix_of_address hx hy hp).subset List.mem_cons_self

/-- Something holds along a chain just if it holds of a declaration at or above. -/
theorem any_chain_iff {t : Tree} {x : Located} (hx : x ∈ t.survey) {p : Label → Bool} :
    x.chain.any p = true ↔
      ∃ y ∈ t.survey, y.site.address <+: x.site.address ∧ p y.label = true := by
  rw [List.any_eq_true]
  constructor
  · rintro ⟨l, hl, hp⟩
    obtain ⟨y, hy, ha, rfl⟩ := (mem_chain_iff hx).1 hl
    exact ⟨y, hy, ha, hp⟩
  · rintro ⟨y, hy, ha, hp⟩
    exact ⟨y.label, (mem_chain_iff hx).2 ⟨y, hy, ha, rfl⟩, hp⟩

/-- A declaration is ignored just if one at or above it is out. -/
theorem isIgnored_iff {t : Tree} {x : Located} (hx : x ∈ t.survey) :
    x.isIgnored = true ↔
      ∃ y ∈ t.survey, y.site.address <+: x.site.address ∧ y.label.isOut = true :=
  any_chain_iff hx

/-! ## Relabelling and extending a tree -/

/-- The survey of a relabelled tree is the relabelled survey. -/
theorem survey_relabel (f : Site → Label → Label) (t : Tree) :
    (t.relabel f).survey = t.survey.map (Located.relabel f) :=
  Decl.surveyAll_relabelAll f t.units Site.top Site.top 0 fun _ => rfl

/-- The declarations of a relabelled tree. -/
theorem mem_survey_relabel {f : Site → Label → Label} {t : Tree} {y : Located} :
    y ∈ (t.relabel f).survey ↔ ∃ x ∈ t.survey, x.relabel f = y := by
  rw [survey_relabel, List.mem_map]

/-- Relabelling a tree twice is one relabelling that looks at the first result. -/
theorem relabel_relabel (f g : Site → Label → Label) (t : Tree) :
    (t.relabel f).relabel g = t.relabel fun s l => g (s.relabel f) (f s l) :=
  congrArg (Tree.mk t.stage)
    (Decl.relabelAll_relabelAll f g t.units Site.top Site.top 0 fun _ => rfl)

/-- Only what happens at the places of the tree matters for a relabelling. -/
theorem relabel_congr {f g : Site → Label → Label} {t : Tree}
    (h : ∀ x ∈ t.survey, f x.site x.label = g x.site x.label) : t.relabel f = t.relabel g :=
  congrArg (Tree.mk t.stage) (Decl.relabelAll_congr t.units Site.top 0 h)

/-- A relabelling changes nothing just if it maps every label of the tree to itself. -/
theorem relabel_eq_self_iff {f : Site → Label → Label} {t : Tree} :
    t.relabel f = t ↔ ∀ x ∈ t.survey, f x.site x.label = x.label := by
  constructor
  · intro h x hx
    have hs := survey_relabel f t
    rw [h] at hs
    have hx' : x.relabel f = x := List.map_inj_left.1 (hs.symm.trans (List.map_id _).symm) x hx
    exact (Located.label_relabel f x).symm.trans (congrArg Located.label hx')
  · intro h
    rw [relabel_congr (g := fun _ l => l) h]
    exact congrArg (Tree.mk t.stage) (Decl.relabelAll_self t.units Site.top 0)

/-- What was there before an extension is there afterwards. -/
theorem extend_mem_survey (f : Site → Decl → List Decl) {t : Tree} :
    ∀ x ∈ t.survey, x.extend f ∈ (t.extend f).survey := by
  refine survey_induction ?_ ?_
  · intro i d hd
    refine unit_mem_survey (t := t.extend f) (d := d.extend f (Site.top.child i)) ?_
    have h := Decl.getElem?_extendAll f t.units Site.top 0 i
    rwa [hd, Nat.zero_add] at h
  · intro x _ hx i m hm
    have h := Decl.getElem?_extendAll f x.decl.members (x.site.inside x.label) 0 i
    rw [hm, Nat.zero_add, Option.map_some] at h
    rw [Located.extend_member]
    refine member_mem_survey hx ?_
    rw [Located.members_extend, List.getElem?_append_left (List.getElem?_eq_some_iff.1 h).1, h]

/-- An extended tree has the declarations that were there and, if these have no members
themselves, the appended ones. -/
theorem survey_extend_cases {f : Site → Decl → List Decl} {t : Tree}
    (leaf : ∀ x ∈ t.survey, ∀ e ∈ f x.site x.decl, e.members = []) :
    ∀ y ∈ (t.extend f).survey, (∃ x ∈ t.survey, x.extend f = y) ∨
      ∃ x ∈ t.survey, ∃ j e, (f x.site x.decl)[j]? = some e ∧
        (x.extend f).member (x.decl.members.length + j) e = y := by
  refine survey_induction ?_ ?_
  · intro i d hd
    change (Decl.extendAll f t.units Site.top 0)[i]? = some d at hd
    rw [Decl.getElem?_extendAll, Nat.zero_add] at hd
    obtain ⟨e, he, rfl⟩ := Option.map_eq_some_iff.1 hd
    exact Or.inl ⟨_, unit_mem_survey he, rfl⟩
  · rintro y - (⟨x, hx, rfl⟩ | ⟨x, hx, j, e, he, rfl⟩) i m hm
    · rw [Located.members_extend] at hm
      rcases Nat.lt_or_ge i x.decl.members.length with hi | hi
      · rw [List.getElem?_append_left (by simpa using hi), Decl.getElem?_extendAll,
          Nat.zero_add] at hm
        obtain ⟨n, hn, rfl⟩ := Option.map_eq_some_iff.1 hm
        exact Or.inl ⟨_, member_mem_survey hx hn, Located.extend_member f x i n⟩
      · rw [List.getElem?_append_right (by simpa using hi), Decl.length_extendAll] at hm
        refine Or.inr ⟨x, hx, _, m, hm, ?_⟩
        rw [Nat.add_sub_cancel' hi]
    · rw [Located.decl_member, leaf x hx e (List.mem_of_getElem? he)] at hm
      simp at hm

end Tree

namespace Decl

mutual

/-- Of an extended declaration, a survey that leaves out the appended ones finds what was there. -/
theorem filter_survey_extend {f : Site → Decl → List Decl} {p : Site → Label → Bool} (d : Decl)
    (s : Site)
    (h : ∀ x ∈ survey d s, ∀ e ∈ f x.site x.decl, e.members = [] ∧ ∀ r, p r e.label = false) :
    (survey (extend f d s) s).filter (fun y => p y.site y.label) =
      ((survey d s).filter fun x => p x.site x.label).map (Located.extend f) :=
  match d with
  | node l ms => by
    have hs := filter_surveyAll_extendAll (p := p) ms (s.inside l) 0 (f s (node l ms))
      (fun x hx => h x (List.mem_cons_of_mem _ hx)) (h _ List.mem_cons_self)
    rw [extend, survey, survey, List.filter_cons, List.filter_cons, hs]
    change (if p s l = true then _ else _) = List.map _ (if p s l = true then _ else _)
    split <;> rfl
termination_by structural d

/-- Of a list of extended declarations with others appended, a survey that leaves out the appended
ones finds what was there. -/
theorem filter_surveyAll_extendAll {f : Site → Decl → List Decl} {p : Site → Label → Bool}
    (ds : List Decl) (s : Site) (i : Nat) (es : List Decl)
    (h : ∀ x ∈ surveyAll ds s i, ∀ e ∈ f x.site x.decl,
      e.members = [] ∧ ∀ r, p r e.label = false)
    (hes : ∀ e ∈ es, e.members = [] ∧ ∀ r, p r e.label = false) :
    (surveyAll (extendAll f ds s i ++ es) s i).filter (fun y => p y.site y.label) =
      ((surveyAll ds s i).filter fun x => p x.site x.label).map (Located.extend f) :=
  match ds with
  | [] => by
    rw [surveyAll, List.filter_nil, List.map_nil, List.filter_eq_nil_iff]
    rintro y hy
    obtain ⟨j, e, he, hy⟩ := mem_surveyAll.1 hy
    obtain ⟨hm, hp⟩ := hes e (List.mem_of_getElem? he)
    rcases mem_survey.1 hy with rfl | ⟨k, m, hk, -⟩
    · exact Bool.eq_false_iff.1 (hp _)
    · rw [hm] at hk
      simp at hk
  | d :: ds => by
    rw [extendAll, List.cons_append, surveyAll, surveyAll, List.filter_append, List.filter_append,
      List.map_append,
      filter_survey_extend d (s.child i) fun x hx => h x (List.mem_append_left _ hx),
      filter_surveyAll_extendAll ds s (i + 1) es (fun x hx => h x (List.mem_append_right _ hx)) hes]
termination_by structural ds

end

end Decl

/-- Of an extended tree, a survey that leaves out the appended declarations finds what was
there. -/
theorem Tree.filter_survey_extend {f : Site → Decl → List Decl} {p : Site → Label → Bool}
    {t : Tree}
    (h : ∀ x ∈ t.survey, ∀ e ∈ f x.site x.decl, e.members = [] ∧ ∀ r, p r e.label = false) :
    ((t.extend f).survey.filter fun y => p y.site y.label) =
      (t.survey.filter fun x => p x.site x.label).map (Located.extend f) := by
  have hs := Decl.filter_surveyAll_extendAll (p := p) t.units Site.top 0 [] h (by simp)
  rwa [List.append_nil] at hs

/-! ## Declarations at an address -/

/-- The declaration at an address is a member of the one at the address of its owner. -/
theorem Decl.locate?_concat (path : List Nat) : ∀ (ds : List Decl) (s : Site) (i : Nat), path ≠ [] →
    locate? ds s (path ++ [i]) =
      (locate? ds s path).bind fun x => x.decl.members[i]?.map (x.member i) := by
  induction path with
  | nil => exact fun _ _ _ h => absurd rfl h
  | cons j path ih =>
    intro ds s i _
    cases path with
    | nil =>
      cases hd : ds[j]? with
      | none => simp [locate?, hd]
      | some d =>
        obtain ⟨l, ms⟩ := d
        simp only [List.cons_append, List.nil_append, locate?, hd, Option.map_some,
          Option.bind_some, members_node]
        rfl
    | cons k path =>
      cases hd : ds[j]? with
      | none => simp [locate?, hd]
      | some d =>
        obtain ⟨l, ms⟩ := d
        have inner := ih ms ((s.child j).inside l) i (List.cons_ne_nil k path)
        simpa only [List.cons_append, locate?, hd] using inner

/-- A declaration of a tree is the one at its address. -/
theorem Tree.locate?_address {t : Tree} {x : Located} (hx : x ∈ t.survey) :
    t.locate? x.site.address = some x := by
  refine survey_induction (P := fun x => t.locate? x.site.address = some x) ?_ ?_ x hx
  · intro i d hd
    change (t.units[i]?).map _ = _
    rw [hd]
    rfl
  · intro y hy ih i m hm
    have owner : Decl.locate? t.units Site.top y.site.address = some y := ih
    rw [locate?, Located.address_member, Decl.locate?_concat _ _ _ _ (address_ne_nil hy), owner,
      Option.bind_some, hm]
    rfl

end Bindery
