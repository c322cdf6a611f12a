import Bindery.Proofs.Growth

/-!
# The order of a survey

A survey lists declarations in the order of their addresses, owners before members. So whether a
walk over some of them gets to a declaration before it stops can be told from its address. Main
statements: `Tree.pairwise_survey`, `EventRule.visited_eq`.
-/

namespace Bindery

namespace Decl

/-- What is listed for members stands below the address of their owner. -/
theorem exists_address_of_mem_surveyAll {ds : List Decl} {s : Site} {i : Nat} {x : Located}
    (hx : x ∈ surveyAll ds s i) :
    ∃ j below, i ≤ j ∧ x.site.address = s.address ++ j :: below := by
  obtain ⟨j, d, -, hx⟩ := mem_surveyAll.1 hx
  obtain ⟨below, h⟩ := (survey_below hx).1
  refine ⟨i + j, below, Nat.le_add_right i j, ?_⟩
  rw [← h, Site.child, List.append_assoc, List.singleton_append]

/-- An address comes before those below it. -/
theorem address_lt_below (address : List Nat) (j : Nat) (below : List Nat) :
    address < address ++ j :: below := by
  induction address with
  | nil => exact List.nil_lt_cons j below
  | cons i address ih => exact List.cons_lt_cons_iff.2 (Or.inr ⟨rfl, ih⟩)

/-- Of two members, the first comes before the second with everything below them. -/
theorem address_lt_sibling (address : List Nat) {i j : Nat} (h : i < j) (below below' : List Nat) :
    address ++ i :: below < address ++ j :: below' := by
  induction address with
  | nil => exact List.cons_lt_cons_iff.2 (Or.inl h)
  | cons k address ih => exact List.cons_lt_cons_iff.2 (Or.inr ⟨rfl, ih⟩)

mutual

/-- The survey of a declaration is in the order of addresses. -/
theorem pairwise_survey (d : Decl) (s : Site) :
    (survey d s).Pairwise fun x y => x.site.address < y.site.address :=
  match d with
  | node l ms => by
    refine List.pairwise_cons.2 ⟨fun y hy => ?_, pairwise_surveyAll ms (s.inside l) 0⟩
    obtain ⟨j, below, -, h⟩ := exists_address_of_mem_surveyAll hy
    rw [h]
    exact address_lt_below s.address j below
termination_by structural d

/-- The survey of a list of declarations is in the order of addresses. -/
theorem pairwise_surveyAll (ds : List Decl) (s : Site) (i : Nat) :
    (surveyAll ds s i).Pairwise fun x y => x.site.address < y.site.address :=
  match ds with
  | [] => List.Pairwise.nil
  | d :: ds => by
    refine List.pairwise_append.2 ⟨pairwise_survey d (s.child i),
      pairwise_surveyAll ds s (i + 1), fun x hx y hy => ?_⟩
    obtain ⟨below, hx⟩ := (survey_below hx).1
    obtain ⟨j, below', hj, hy⟩ := exists_address_of_mem_surveyAll hy
    rw [← hx, hy, Site.child, List.append_assoc, List.singleton_append]
    exact address_lt_sibling s.address (Nat.lt_of_succ_le hj) below below'
termination_by structural ds

end

end Decl

/-- The survey of a tree is in the order of addresses. -/
theorem Tree.pairwise_survey (t : Tree) :
    t.survey.Pairwise fun x y => x.site.address < y.site.address :=
  Decl.pairwise_surveyAll t.units Site.top 0

/-! ## Where a walk over rosters stops -/

namespace Stop

variable {v : Located × Roster} {visited : List (Located × Roster)}

/-- A walk stops at a roster with a fault. -/
theorem ofRosters_cons_of_fault {fault : Fault} (h : v.2.fault = some fault) :
    ofRosters (v :: visited) = some ⟨v.1.site.address, fault⟩ := by
  rw [ofRosters, List.findSome?_cons, h]
  rfl

/-- At a roster without a fault, a walk goes on. -/
theorem ofRosters_cons_of_done (h : v.2.fault = none) :
    ofRosters (v :: visited) = ofRosters visited := by
  rw [ofRosters, List.findSome?_cons, h]
  rfl

/-- A walk stops at something on its way. -/
theorem exists_address_of_ofRosters {halt : Stop} (h : ofRosters visited = some halt) :
    ∃ v ∈ visited, halt.address = v.1.site.address := by
  obtain ⟨v, hv, hs⟩ := List.exists_of_findSome?_eq_some h
  obtain ⟨fault, -, rfl⟩ := Option.map_eq_some_iff.1 hs
  exact ⟨v, hv, rfl⟩

end Stop

namespace Site

variable {s : Site}

/-- A walk gets to what comes before its whole way. -/
theorem isVisited_of_earlier {visited : List (Located × Roster)}
    (earlier : ∀ v ∈ visited, s.address < v.1.site.address) :
    s.isVisited (Stop.ofRosters visited) = true := by
  rw [isVisited, Bool.or_eq_true]
  left
  rw [isBefore, Option.all_eq_true]
  intro halt h
  obtain ⟨v, hv, same⟩ := Stop.exists_address_of_ofRosters h
  rw [same]
  exact decide_eq_true (earlier v hv)

/-- A walk gets to where it stops. -/
theorem isVisited_stop (fault : Fault) : s.isVisited (some ⟨s.address, fault⟩) = true := by
  simp [isVisited]

/-- A walk does not get to what comes later than its stop. -/
theorem isVisited_of_later {halt : Stop} (later : halt.address < s.address) :
    s.isVisited (some halt) = false := by
  have notBefore : ¬ s.address < halt.address := List.lt_asymm later
  have ne : s.address ≠ halt.address := fun h => notBefore (h ▸ h ▸ later)
  simp [isVisited, isBefore, notBefore, ne]

end Site

/-- Rosters in the order of addresses are walked over up to the first fault: to those that the walk
gets to. -/
theorem upToFirst_eq_filter {rosters : List (Located × Roster)}
    (sorted : rosters.Pairwise fun v v' => v.1.site.address < v'.1.site.address) :
    let visited := upToFirst (fun v => v.2.fault.isSome) rosters
    visited = rosters.filter fun v => v.1.site.isVisited (Stop.ofRosters visited) := by
  induction rosters with
  | nil => rfl
  | cons v rosters ih =>
    obtain ⟨later, sorted⟩ := List.pairwise_cons.1 sorted
    have ih := ih sorted
    dsimp only at ih ⊢
    rw [upToFirst]
    cases hf : v.2.fault with
    | some fault =>
      -- The walk stops here, and all others come later.
      have others : ∀ v' ∈ rosters,
          ¬ v'.1.site.isVisited (some ⟨v.1.site.address, fault⟩) = true := by
        intro v' hv'
        rw [Site.isVisited_of_later (later v' hv')]
        exact Bool.false_ne_true
      rw [Option.isSome_some, if_pos rfl, Stop.ofRosters_cons_of_fault hf, List.filter_cons,
        if_pos (Site.isVisited_stop fault), List.filter_eq_nil_iff.2 others]
    | none =>
      -- The walk goes on, and stops later if at all.
      generalize upToFirst (fun v => v.2.fault.isSome) rosters = visited at ih ⊢
      have self : v.1.site.isVisited (Stop.ofRosters visited) = true := by
        refine Site.isVisited_of_earlier fun v' hv' => later v' ?_
        rw [ih] at hv'
        exact List.mem_of_mem_filter hv'
      rw [Option.isSome_none, if_neg Bool.false_ne_true, Stop.ofRosters_cons_of_done hf,
        List.filter_cons, if_pos self, ← ih]

/-- The classes that are visited are those that attaching gets to. -/
theorem EventRule.visited_eq (rule : EventRule) (t : Tree) :
    rule.visited t =
      ((t.survey.filter fun x => isEventful x.site x.label).map fun x =>
        (x, rule.roster x.site x.decl)).filter fun v =>
          v.1.site.isVisited (Stop.ofRosters (rule.visited t)) := by
  refine upToFirst_eq_filter (List.pairwise_map.2 ?_)
  exact t.pairwise_survey.filter _

end Bindery
