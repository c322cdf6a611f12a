import Bindery.Tree

/-!
# Laws of walks

A survey reaches exactly the units and, from every declaration that it reaches, the members of that
declaration. A relabelling keeps every address and maps the survey declaration by declaration; an
extension keeps what was there and appends. What the passes do is stated in terms of these laws.
-/

namespace Bindery

/-- Maps every label of a chain whose first declaration stands at the given address. -/
def Chain.relabel (f : Site → Label → Label) : List Nat → Chain → Chain
  | _, [] => []
  | address, l :: outer => f ⟨address, outer⟩ l :: relabel f address.dropLast outer

/-- The site in the tree after a relabelling. -/
def Site.relabel (f : Site → Label → Label) (s : Site) : Site :=
  ⟨s.address, Chain.relabel f s.address.dropLast s.scope⟩

namespace Located

/-- The declaration in the tree after a relabelling. -/
def relabel (f : Site → Label → Label) (x : Located) : Located :=
  ⟨x.site.relabel f, x.decl.relabel f x.site⟩

/-- The declaration in the tree after an extension. -/
def extend (f : Site → Decl → List Decl) (x : Located) : Located :=
  ⟨x.site, x.decl.extend f x.site⟩

/-- The `i`-th member of a declaration, in its place. -/
def member (x : Located) (i : Nat) (m : Decl) : Located := ⟨(x.site.inside x.label).child i, m⟩

@[simp] theorem site_relabel (f : Site → Label → Label) (x : Located) :
    (x.relabel f).site = x.site.relabel f := rfl

@[simp] theorem site_extend (f : Site → Decl → List Decl) (x : Located) :
    (x.extend f).site = x.site := rfl

@[simp] theorem label_relabel (f : Site → Label → Label) (x : Located) :
    (x.relabel f).label = f x.site x.label := by
  obtain ⟨s, l, ms⟩ := x
  rfl

@[simp] theorem label_extend (f : Site → Decl → List Decl) (x : Located) :
    (x.extend f).label = x.label := by
  obtain ⟨s, l, ms⟩ := x
  rfl

@[simp] theorem members_relabel (f : Site → Label → Label) (x : Located) :
    (x.relabel f).decl.members =
      Decl.relabelAll f x.decl.members (x.site.inside x.label) 0 := by
  obtain ⟨s, l, ms⟩ := x
  rfl

@[simp] theorem members_extend (f : Site → Decl → List Decl) (x : Located) :
    (x.extend f).decl.members =
      Decl.extendAll f x.decl.members (x.site.inside x.label) 0 ++ f x.site x.decl := by
  obtain ⟨s, l, ms⟩ := x
  rfl

@[simp] theorem chain_relabel (f : Site → Label → Label) (x : Located) :
    (x.relabel f).chain = Chain.relabel f x.site.address x.chain := by
  obtain ⟨s, l, ms⟩ := x
  rfl

@[simp] theorem chain_extend (f : Site → Decl → List Decl) (x : Located) :
    (x.extend f).chain = x.chain := by
  obtain ⟨s, l, ms⟩ := x
  rfl

@[simp] theorem chain_member (x : Located) (i : Nat) (m : Decl) :
    (x.member i m).chain = m.label :: x.chain := rfl

@[simp] theorem address_member (x : Located) (i : Nat) (m : Decl) :
    (x.member i m).site.address = x.site.address ++ [i] := rfl

@[simp] theorem scope_member (x : Located) (i : Nat) (m : Decl) :
    (x.member i m).site.scope = x.chain := rfl

@[simp] theorem label_member (x : Located) (i : Nat) (m : Decl) :
    (x.member i m).label = m.label := rfl

@[simp] theorem decl_member (x : Located) (i : Nat) (m : Decl) : (x.member i m).decl = m := rfl

/-- A relabelling maps members to members. -/
theorem relabel_member (f : Site → Label → Label) (x : Located) (i : Nat) (m : Decl) :
    (x.member i m).relabel f =
      (x.relabel f).member i (m.relabel f ((x.site.inside x.label).child i)) := by
  obtain ⟨s, l, ms⟩ := x
  simp [relabel, member, Site.relabel, Site.inside, Site.child, Chain.relabel, label, Decl.relabel]

/-- An extension keeps members where they are. -/
theorem extend_member (f : Site → Decl → List Decl) (x : Located) (i : Nat) (m : Decl) :
    (x.member i m).extend f =
      (x.extend f).member i (m.extend f ((x.site.inside x.label).child i)) := by
  obtain ⟨s, l, ms⟩ := x
  rfl

end Located

@[simp] theorem Site.address_relabel (f : Site → Label → Label) (s : Site) :
    (s.relabel f).address = s.address := rfl

@[simp] theorem Chain.length_relabel (f : Site → Label → Label) (address : List Nat)
    (c : Chain) : (Chain.relabel f address c).length = c.length := by
  induction c generalizing address with
  | nil => rfl
  | cons l outer ih => simp [Chain.relabel, ih]

/-- The place of the members of a declaration after a relabelling. -/
theorem Site.relabel_child_inside (f : Site → Label → Label) (s : Site) (l : Label) (i : Nat) :
    ((s.inside l).child i).relabel f = ((s.relabel f).inside (f s l)).child i := by
  simp [Site.relabel, Site.inside, Site.child, Chain.relabel]

namespace Decl

/-- A list is relabelled declaration by declaration, each at its place. -/
theorem getElem?_relabelAll (f : Site → Label → Label) (ds : List Decl) (s : Site) (i j : Nat) :
    (relabelAll f ds s i)[j]? = ds[j]?.map fun d => relabel f d (s.child (i + j)) := by
  induction ds generalizing i j with
  | nil => rfl
  | cons d ds ih =>
    cases j with
    | zero => rfl
    | succ j => simpa [relabelAll, Nat.add_assoc, Nat.add_comm 1 j] using ih (i + 1) j

/-- A list is extended declaration by declaration, each at its place. -/
theorem getElem?_extendAll (f : Site → Decl → List Decl) (ds : List Decl) (s : Site)
    (i j : Nat) :
    (extendAll f ds s i)[j]? = ds[j]?.map fun d => extend f d (s.child (i + j)) := by
  induction ds generalizing i j with
  | nil => rfl
  | cons d ds ih =>
    cases j with
    | zero => rfl
    | succ j => simpa [extendAll, Nat.add_assoc, Nat.add_comm 1 j] using ih (i + 1) j

@[simp] theorem length_extendAll (f : Site → Decl → List Decl) (ds : List Decl) (s : Site)
    (i : Nat) : (extendAll f ds s i).length = ds.length := by
  induction ds generalizing i with
  | nil => rfl
  | cons d ds ih => simp [extendAll, ih]

/-- Surveying a list surveys each of its declarations at its place. -/
theorem mem_surveyAll {ds : List Decl} {s : Site} {i : Nat} {x : Located} :
    x ∈ surveyAll ds s i ↔ ∃ j d, ds[j]? = some d ∧ x ∈ survey d (s.child (i + j)) := by
  induction ds generalizing i with
  | nil => simp [surveyAll]
  | cons d ds ih =>
    rw [surveyAll, List.mem_append, ih]
    constructor
    · rintro (h | ⟨j, e, he, h⟩)
      · exact ⟨0, d, rfl, h⟩
      · refine ⟨j + 1, e, he, ?_⟩
        rwa [Nat.add_comm j 1, ← Nat.add_assoc]
    · rintro ⟨j, e, he, h⟩
      cases j with
      | zero =>
        obtain rfl : d = e := by simpa using he
        exact Or.inl h
      | succ j =>
        refine Or.inr ⟨j, e, by simpa using he, ?_⟩
        rwa [Nat.add_assoc, Nat.add_comm 1 j]

/-- A survey begins with the declaration itself and goes on with its members. -/
theorem mem_survey {d : Decl} {s : Site} {x : Located} :
    x ∈ survey d s ↔ x = ⟨s, d⟩ ∨
      ∃ j m, d.members[j]? = some m ∧ x ∈ survey m ((s.inside d.label).child j) := by
  obtain ⟨l, ms⟩ := d
  simp [survey, mem_surveyAll]

/-- A property that every member inherits from its owner holds of all that a survey reaches. -/
theorem survey_induction {P : Located → Prop}
    (member : ∀ x, P x → ∀ i m, x.decl.members[i]? = some m → P (x.member i m)) (d : Decl) :
    ∀ s, P ⟨s, d⟩ → ∀ x ∈ survey d s, P x := by
  induction d using Decl.induction with
  | h l ms ih =>
    intro s start x hx
    rcases mem_survey.1 hx with rfl | ⟨j, m, hm, hx⟩
    · exact start
    · exact ih m (List.mem_of_getElem? hm) _ (member _ start j m hm) x hx

/-- Whatever a survey reaches, it reaches the members of. -/
theorem member_mem_survey {d : Decl} {s : Site} {x : Located} (hx : x ∈ survey d s) {i : Nat}
    {m : Decl} (hm : x.decl.members[i]? = some m) : x.member i m ∈ survey d s := by
  induction d using Decl.induction generalizing s with
  | h l ms ih =>
    rcases mem_survey.1 hx with rfl | ⟨j, e, he, hx⟩
    · exact mem_survey.2 (Or.inr ⟨i, m, hm, mem_survey.2 (Or.inl rfl)⟩)
    · exact mem_survey.2 (Or.inr ⟨j, e, he, ih e (List.mem_of_getElem? he) hx⟩)

mutual

/-- The survey after a relabelling is the relabelled survey. -/
theorem survey_relabel (f : Site → Label → Label) (d : Decl) (s : Site) :
    survey (relabel f d s) (s.relabel f) = (survey d s).map (Located.relabel f) :=
  match d with
  | node l ms => by
    rw [relabel, survey, survey, List.map_cons,
      surveyAll_relabelAll f ms (s.inside l) ((s.relabel f).inside (f s l)) 0
        (fun i => s.relabel_child_inside f l i)]
    rfl
termination_by structural d

/-- The survey of a list after a relabelling is the relabelled survey. -/
theorem surveyAll_relabelAll (f : Site → Label → Label) (ds : List Decl) (s s' : Site) (i : Nat)
    (h : ∀ j, (s.child j).relabel f = s'.child j) :
    surveyAll (relabelAll f ds s i) s' i = (surveyAll ds s i).map (Located.relabel f) :=
  match ds with
  | [] => rfl
  | d :: ds => by
    rw [relabelAll, surveyAll, surveyAll, List.map_append, ← h i, survey_relabel f d (s.child i),
      surveyAll_relabelAll f ds s s' (i + 1) h]
termination_by structural ds

end

mutual

/-- Relabelling twice is one relabelling that looks at the first result. -/
theorem relabel_relabel (f g : Site → Label → Label) (d : Decl) (s : Site) :
    relabel g (relabel f d s) (s.relabel f) =
      relabel (fun r l => g (r.relabel f) (f r l)) d s :=
  match d with
  | node l ms => by
    rw [relabel, relabel, relabel,
      relabelAll_relabelAll f g ms (s.inside l) ((s.relabel f).inside (f s l)) 0
        (fun i => s.relabel_child_inside f l i)]
termination_by structural d

/-- Relabelling a list twice is one relabelling that looks at the first result. -/
theorem relabelAll_relabelAll (f g : Site → Label → Label) (ds : List Decl) (s s' : Site)
    (i : Nat) (h : ∀ j, (s.child j).relabel f = s'.child j) :
    relabelAll g (relabelAll f ds s i) s' i =
      relabelAll (fun r l => g (r.relabel f) (f r l)) ds s i :=
  match ds with
  | [] => rfl
  | d :: ds => by
    rw [relabelAll, relabelAll, relabelAll, ← h i, relabel_relabel f g d (s.child i),
      relabelAll_relabelAll f g ds s s' (i + 1) h]
termination_by structural ds

end

mutual

/-- Only what happens at the places of a survey matters for a relabelling. -/
theorem relabel_congr {f g : Site → Label → Label} (d : Decl) (s : Site)
    (h : ∀ x ∈ survey d s, f x.site x.label = g x.site x.label) : relabel f d s = relabel g d s :=
  match d with
  | node l ms => by
    rw [relabel, relabel, relabelAll_congr ms (s.inside l) 0
      fun x hx => h x (List.mem_cons_of_mem _ hx)]
    exact congrArg (node · _) (h ⟨s, node l ms⟩ List.mem_cons_self)
termination_by structural d

/-- Only what happens at the places of a survey matters for relabelling a list. -/
theorem relabelAll_congr {f g : Site → Label → Label} (ds : List Decl) (s : Site) (i : Nat)
    (h : ∀ x ∈ surveyAll ds s i, f x.site x.label = g x.site x.label) :
    relabelAll f ds s i = relabelAll g ds s i :=
  match ds with
  | [] => rfl
  | d :: ds => by
    rw [relabelAll, relabelAll,
      relabel_congr d (s.child i) fun x hx => h x (List.mem_append_left _ hx),
      relabelAll_congr ds s (i + 1) fun x hx => h x (List.mem_append_right _ hx)]
termination_by structural ds

end

mutual

/-- Mapping every label to itself changes nothing. -/
theorem relabel_self (d : Decl) (s : Site) : relabel (fun _ l => l) d s = d :=
  match d with
  | node l ms => by rw [relabel, relabelAll_self ms (s.inside l) 0]
termination_by structural d

/-- Mapping every label of a list to itself changes nothing. -/
theorem relabelAll_self (ds : List Decl) (s : Site) (i : Nat) :
    relabelAll (fun _ l => l) ds s i = ds :=
  match ds with
  | [] => rfl
  | d :: ds => by
    rw [relabelAll, relabel_self d (s.child i), relabelAll_self ds s (i + 1)]
termination_by structural ds

end

end Decl

/-! ## Walks below a place -/

namespace Site

/-- The site that is reached from here by the way that leads from the top to another site. -/
def graft (s r : Site) : Site := ⟨s.address ++ r.address, r.scope ++ s.scope⟩

@[simp] theorem graft_top (s : Site) : s.graft top = s := by simp [graft, top]

/-- Going into a declaration and on to a member can be done before or after. -/
theorem graft_child_inside (s r : Site) (l : Label) (i : Nat) :
    ((s.graft r).inside l).child i = s.graft ((r.inside l).child i) := by
  simp [graft, inside, child]

end Site

namespace Decl

mutual

/-- Relabelling a declaration at a place is relabelling it as if it stood on top. -/
theorem relabel_graft (f : Site → Label → Label) (d : Decl) (s r : Site) :
    relabel f d (s.graft r) = relabel (fun q l => f (s.graft q) l) d r :=
  match d with
  | node l ms => by
    rw [relabel, relabel,
      relabelAll_graft f ms s ((s.graft r).inside l) (r.inside l) 0
        (fun i => s.graft_child_inside r l i)]
termination_by structural d

/-- Relabelling a list at a place is relabelling it as if it stood on top. -/
theorem relabelAll_graft (f : Site → Label → Label) (ds : List Decl) (s s' r : Site) (i : Nat)
    (h : ∀ j, s'.child j = s.graft (r.child j)) :
    relabelAll f ds s' i = relabelAll (fun q l => f (s.graft q) l) ds r i :=
  match ds with
  | [] => rfl
  | d :: ds => by
    rw [relabelAll, relabelAll, h i, relabel_graft f d s (r.child i),
      relabelAll_graft f ds s s' r (i + 1) h]
termination_by structural ds

end

/-- A survey stays below the address it begins at, and its chains end in the label there. -/
theorem survey_below {d : Decl} {s : Site} {x : Located} (hx : x ∈ survey d s) :
    s.address <+: x.site.address ∧ d.label :: s.scope <:+ x.chain := by
  refine survey_induction
    (P := fun x => s.address <+: x.site.address ∧ d.label :: s.scope <:+ x.chain) ?_ d s
    ⟨List.prefix_rfl, List.suffix_rfl⟩ x hx
  intro y ⟨ha, hc⟩ i m _
  exact ⟨ha.trans (List.prefix_append _ _), hc.trans (List.suffix_cons _ _)⟩

/-- Below the top, a scope is as long as the address. -/
theorem length_scope_of_mem_survey {d : Decl} {x : Located} (hx : x ∈ survey d Site.top) :
    x.site.scope.length = x.site.address.length := by
  refine survey_induction
    (P := fun x => x.site.scope.length = x.site.address.length) ?_ d Site.top rfl x hx
  intro y hy i m _
  simp [Located.chain, Site.chain, hy]

end Decl

end Bindery
