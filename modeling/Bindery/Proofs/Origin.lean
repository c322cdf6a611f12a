import Bindery.Proofs.Place
import Bindery.Origin

/-!
# Classification as a relabelling

Every unit is classified by the path of its own label. All units together, the labels of a tree are
mapped by their sites, up to the place where a name cannot be judged.
-/

namespace Bindery

/-- The path of the unit that a chain ends in, empty if it ends in none. -/
def Chain.rootPath (c : Chain) : String :=
  match c.getLast?.map Label.form with
  | some (.unit path) => path
  | _ => ""

/-- The label after its unit is classified. -/
def originLabel (root : WrittenPath) (marks : PrivateMarks) (s : Site) (l : Label) : Label :=
  match Origin.ofPath root (s.chain l).rootPath with
  | .unresolved => l
  | .foreign => { l with treatment := .link }
  | .native => if Decl.isPruned marks s l then l.suppress else l

/-- The label after its unit is classified, if that comes before the place where the walk stops. -/
def originLabelUpTo (root : WrittenPath) (marks : PrivateMarks) (stop : Option Stop) (s : Site)
    (l : Label) : Label :=
  if s.isBefore stop then originLabel root marks s l else l

/-- Below a unit the chains end in its label. -/
theorem Decl.rootPath_of_mem_survey {d : Decl} {x : Located} (hx : x ∈ d.survey Site.top) :
    x.chain.rootPath = d.unitPath := by
  obtain ⟨inner, hi⟩ := (Decl.survey_below hx).2
  have hl : x.chain.getLast? = some d.label := by
    rw [← hi]
    exact List.getLast?_concat
  rw [Chain.rootPath, hl, Option.map_some, unitPath, form]
  cases d.label.form <;> rfl

/-- The place where a walk stops in the `i`-th unit, seen from the top of the tree. -/
def Stop.inUnit (i : Nat) (halt : Stop) : Stop := ⟨i :: halt.address, halt.fault⟩

/-- Inside a unit, what comes before a place can be told from the unit alone. -/
theorem Site.isBefore_inUnit (i : Nat) (s : Site) (stop : Option Stop) :
    ((Site.top.child i).graft s).isBefore (stop.map (Stop.inUnit i)) = s.isBefore stop := by
  cases stop with
  | none => rfl
  | some halt => simp [isBefore, graft, child, top, Stop.inUnit]

/-- The address of what stands in a unit begins with its number. -/
theorem Decl.exists_address_of_mem_unit {d : Decl} {i : Nat} {x : Located}
    (hx : x ∈ d.survey (Site.top.child i)) : ∃ below, x.site.address = i :: below := by
  obtain ⟨below, h⟩ := (survey_below hx).1
  exact ⟨below, h.symm⟩

/-- What stands in a unit comes before each place in a later unit. -/
theorem Decl.isBefore_inUnit_of_lt {d : Decl} {i j : Nat} {x : Located}
    (hx : x ∈ d.survey (Site.top.child i)) (h : i < j) (halt : Stop) :
    x.site.isBefore (some (halt.inUnit j)) = true := by
  obtain ⟨below, address⟩ := exists_address_of_mem_unit hx
  rw [Site.isBefore, Option.all_some, address]
  exact decide_eq_true (List.cons_lt_cons_iff.2 (Or.inl h))

/-- What stands in a unit does not come before a place in an earlier unit. -/
theorem Decl.isBefore_inUnit_of_gt {d : Decl} {i j : Nat} {x : Located}
    (hx : x ∈ d.survey (Site.top.child j)) (h : i < j) (halt : Stop) :
    x.site.isBefore (some (halt.inUnit i)) = false := by
  obtain ⟨below, address⟩ := exists_address_of_mem_unit hx
  rw [Site.isBefore, Option.all_some, address]
  exact decide_eq_false (List.lt_asymm (List.cons_lt_cons_iff.2 (Or.inl h)))

/-- A unit is classified as its declarations are, seen from the top of the tree. -/
theorem Decl.relabel_originLabelUpTo (root : WrittenPath) (marks : PrivateMarks) (d : Decl)
    (i : Nat) (stop : Option Stop) :
    d.relabel (originLabelUpTo root marks (stop.map (Stop.inUnit i))) (Site.top.child i) =
      d.relabel (fun s l => if s.isBefore stop then
        match Origin.ofPath root d.unitPath with
        | .unresolved => l
        | .foreign => { l with treatment := .link }
        | .native => if isPruned marks s l then l.suppress else l
        else l) Site.top := by
  have hg := relabel_graft (originLabelUpTo root marks (stop.map (Stop.inUnit i))) d
    (Site.top.child i) Site.top
  rw [Site.graft_top] at hg
  rw [hg]
  refine relabel_congr d Site.top fun x hx => ?_
  have hc : ((Site.top.child i).graft x.site).chain x.label = x.chain := by
    simp [Site.chain, Site.graft, Site.child, Site.top, Located.chain]
  have hp : isPruned marks ((Site.top.child i).graft x.site) x.label =
      isPruned marks x.site x.label := by
    simp [isPruned, isReached, Site.graft, Site.child, Site.top]
  rw [originLabelUpTo, Site.isBefore_inUnit, originLabel, hc, rootPath_of_mem_survey hx, hp]

/-- Units behind the place where a walk stops are left alone. -/
theorem Decl.relabelAll_originLabelUpTo_of_behind (root : WrittenPath) (marks : PrivateMarks)
    (halt : Stop) (ds : List Decl) {i j : Nat} (h : i < j) :
    relabelAll (originLabelUpTo root marks (some (halt.inUnit i))) ds Site.top j = ds := by
  rw [relabelAll_congr (g := fun _ l => l) ds Site.top j, relabelAll_self]
  intro x hx
  obtain ⟨k, d, -, hx⟩ := mem_surveyAll.1 hx
  rw [originLabelUpTo, isBefore_inUnit_of_gt hx (Nat.lt_add_right k h)]
  rfl

/-- Whether a walk through units from the `i`-th on stops, if at all, in one of them. -/
def Stop.isFrom (i : Nat) (stop : Option Stop) : Prop :=
  ∀ halt ∈ stop, ∃ j inner, i ≤ j ∧ halt = Stop.inUnit j inner

/-- A walk that stops in a unit from the next on stops in one from this on. -/
theorem Stop.isFrom.of_succ {i : Nat} {stop : Option Stop} (h : isFrom (i + 1) stop) :
    isFrom i stop := by
  intro halt hh
  obtain ⟨j, inner, hj, he⟩ := h halt hh
  exact ⟨j, inner, Nat.le_of_succ_le hj, he⟩

/-- Units before the one in which a walk stops are classified to their end. -/
theorem Decl.relabel_originLabelUpTo_of_before (root : WrittenPath) (marks : PrivateMarks)
    {stop : Option Stop} (d : Decl) {i : Nat} (h : Stop.isFrom (i + 1) stop) :
    d.relabel (originLabelUpTo root marks stop) (Site.top.child i) =
      match Origin.ofPath root d.unitPath with
      | .unresolved => d
      | .foreign => d.link
      | .native => d.relabel (fun s l => if isPruned marks s l then l.suppress else l) Site.top := by
  have hb : d.relabel (originLabelUpTo root marks stop) (Site.top.child i) =
      d.relabel (originLabelUpTo root marks none) (Site.top.child i) := by
    refine relabel_congr d _ fun x hx => ?_
    have hx : x.site.isBefore stop = true := by
      cases stop with
      | none => rfl
      | some halt =>
        obtain ⟨j, inner, hj, rfl⟩ := h halt rfl
        exact isBefore_inUnit_of_lt hx (Nat.lt_of_succ_le hj) inner
    rw [originLabelUpTo, originLabelUpTo, hx]
    rfl
  refine hb.trans ((relabel_originLabelUpTo root marks d i none).trans ?_)
  cases Origin.ofPath root d.unitPath with
  | unresolved => exact relabel_self d Site.top
  | foreign => rfl
  | native => rfl

/-- Classifying units from the `i`-th on relabels them, up to the place where a name cannot be
judged; there is such a place just if there is a fault. -/
theorem classifyUnits_units (root : WrittenPath) (marks : PrivateMarks) (ds : List Decl) :
    ∀ (i : Nat) (tally : Tally), ∃ stop : Option Stop, Stop.isFrom i stop ∧
      (classifyUnits root marks ds tally).fault = stop.map Stop.fault ∧
      (classifyUnits root marks ds tally).units =
        Decl.relabelAll (originLabelUpTo root marks stop) ds Site.top i := by
  induction ds with
  | nil => exact fun i tally => ⟨none, by simp [Stop.isFrom], rfl, rfl⟩
  | cons d ds ih =>
    intro i tally
    have before := fun {stop : Option Stop} (h : Stop.isFrom (i + 1) stop) =>
      d.relabel_originLabelUpTo_of_before root marks h
    rw [classifyUnits]
    cases ho : Origin.ofPath root d.unitPath with
    | unresolved =>
      obtain ⟨stop, hs, hf, hu⟩ := ih (i + 1) (tally.add "skipped_units" 1)
      refine ⟨stop, hs.of_succ, hf, ?_⟩
      rw [Decl.relabelAll, before hs, ho, ← hu]
    | foreign =>
      obtain ⟨stop, hs, hf, hu⟩ :=
        ih (i + 1) ((tally.add "linked" d.size).add "linked_units" 1)
      refine ⟨stop, hs.of_succ, hf, ?_⟩
      rw [Decl.relabelAll, before hs, ho, ← hu]
    | native =>
      cases hp : Decl.pruningStop? marks d with
      | none =>
        have hpf : (d.prune marks).fault = none := by simp [Decl.prune, hp]
        obtain ⟨stop, hs, hf, hu⟩ := ih (i + 1)
          ((tally.add "native_units" 1).add "private_ignored" (d.prune marks).ignored)
        refine ⟨stop, hs.of_succ, ?_, ?_⟩
        · simp only [hpf, hf]
        · simp only [hpf]
          rw [Decl.relabelAll, before hs, ho, ← hu]
          simp [Decl.prune, hp, Site.isBefore]
      | some halt =>
        have hpf : (d.prune marks).fault = some halt.fault := by simp [Decl.prune, hp]
        refine ⟨some (halt.inUnit i), ?_, ?_, ?_⟩
        · rintro _ ⟨⟩
          exact ⟨i, halt, le_rfl, rfl⟩
        · simp only [hpf]
          rfl
        · simp only [hpf]
          rw [Decl.relabelAll, Decl.relabelAll_originLabelUpTo_of_behind root marks halt ds
              (Nat.lt_succ_self i), ← Option.map_some, Decl.relabel_originLabelUpTo, ho]
          refine congrArg (· :: ds) (Decl.relabel_congr d Site.top fun x _ => ?_)
          rw [hp]
          cases hb : x.site.isBefore (some halt) <;> simp [hb]

/-- Classifying a tree relabels it, up to the place where a name cannot be judged; there is such a
place just if there is a fault. -/
theorem classify_tree (root : WrittenPath) (marks : PrivateMarks) (w : Work) :
    ∃ stop : Option Stop, (classify root marks w).fault = stop.map Stop.fault ∧
      (classify root marks w).tree = w.tree.relabel (originLabelUpTo root marks stop) := by
  obtain ⟨stop, -, hf, hu⟩ := classifyUnits_units root marks w.tree.units 0 w.tally
  exact ⟨stop, hf, congrArg (Tree.mk w.tree.stage) hu⟩

end Bindery
