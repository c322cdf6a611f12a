import Bindery.Proofs.Order
import Bindery.Proofs.Preparation
import Bindery.Proofs.Rearrangement

/-!
# Pruning in place

Pruning can be done by a walk: it goes through the members of a context in order, suppresses the
private ones and goes on below the others, and it stops at a name that cannot be judged. The walk
never looks into what it has suppressed, so exactly those private declarations are suppressed that
stand below the context and below nothing private. Main statement: `Tree.prunes_topmost`.
-/

namespace Bindery

/-! ## The walk -/

/-- What pruning some members in turn leads to. -/
structure MembersPruning where
  /-- The members afterwards. -/
  members : List Decl
  /-- How many declarations were suppressed, those before included. -/
  ignored : Nat
  /-- Why pruning stopped early, if it did. -/
  fault : Option Fault

namespace Decl

mutual

/-- Suppresses a declaration if it is private, and prunes its members if not. So many declarations
were suppressed `before`. -/
def pruneSelf (m : PrivateMarks) (d : Decl) (before : Nat) : Pruning :=
  match d with
  | node l ms =>
    match m.judge l.name with
    | .error fault => { context := node l ms, ignored := before, fault := some fault }
    | .ok true => { context := node l.suppress ms, ignored := before + 1, fault := none }
    | .ok false =>
      let below := pruneMembers m ms before
      { context := node l below.members, ignored := below.ignored, fault := below.fault }
termination_by structural d

/-- Prunes declarations in turn, up to the first that cannot be judged. -/
def pruneMembers (m : PrivateMarks) (ds : List Decl) (before : Nat) : MembersPruning :=
  match ds with
  | [] => { members := [], ignored := before, fault := none }
  | d :: ds =>
    let first := pruneSelf m d before
    match first.fault with
    | some fault => { members := first.context :: ds, ignored := first.ignored, fault := some fault }
    | none =>
      let others := pruneMembers m ds first.ignored
      { others with members := first.context :: others.members }
termination_by structural ds

end

/-- Prunes the members of a context in turn. -/
def pruneInTurn (m : PrivateMarks) (context : Decl) (before : Nat) : Pruning :=
  let below := pruneMembers m context.members before
  { context := node context.label below.members, ignored := below.ignored, fault := below.fault }

end Decl

/-! ## Stops in ordered lists -/

namespace Stop

variable {check : Located → Option Fault} {xs ys : List Located} {halt : Stop}

/-- A walk stops in the first part of its way, or else in the second. -/
theorem first?_append : first? check (xs ++ ys) = (first? check xs).or (first? check ys) :=
  List.findSome?_append

/-- A walk stops at something on its way. -/
theorem exists_address_of_first? (h : first? check xs = some halt) :
    ∃ x ∈ xs, halt.address = x.site.address := by
  obtain ⟨x, hx, hs⟩ := List.exists_of_findSome?_eq_some h
  obtain ⟨fault, -, rfl⟩ := Option.map_eq_some_iff.1 hs
  exact ⟨x, hx, rfl⟩

/-- What comes before the whole way of a walk comes before its stop. -/
theorem isBefore_of_earlier (check : Located → Option Fault) {s : Site}
    (earlier : ∀ y ∈ ys, s.address < y.site.address) :
    s.isBefore (first? check ys) = true := by
  rw [Site.isBefore, Option.all_eq_true]
  intro halt h
  obtain ⟨y, hy, same⟩ := exists_address_of_first? h
  rw [same]
  exact decide_eq_true (earlier y hy)

/-- What comes behind the whole way of a walk does not come before its stop. -/
theorem not_isBefore_of_later {s : Site} (later : ∀ x ∈ xs, x.site.address < s.address)
    (h : first? check xs = some halt) : s.isBefore (some halt) = false := by
  obtain ⟨x, hx, same⟩ := exists_address_of_first? h
  rw [Site.isBefore, Option.all_some, same]
  exact decide_eq_false (List.lt_asymm (later x hx))

end Stop

namespace Decl

/-- What stands in a declaration comes before what stands in those behind it. -/
theorem address_lt_of_behind {d : Decl} {ds : List Decl} {s : Site} {i : Nat} {x y : Located}
    (hx : x ∈ survey d (s.child i)) (hy : y ∈ surveyAll ds s (i + 1)) :
    x.site.address < y.site.address :=
  (List.pairwise_append.1 (pairwise_surveyAll (d :: ds) s i)).2.2 x hx y hy

/-- An owner comes before what stands in it. -/
theorem address_lt_of_inside {l : Label} {ms : List Decl} {s : Site} {y : Located}
    (hy : y ∈ surveyAll ms (s.inside l) 0) : s.address < y.site.address :=
  (List.pairwise_cons.1 (pairwise_survey (node l ms) s)).1 y hy

/-! ## The walk and the relabelling -/

variable {marks : PrivateMarks}

/-- Why the walk stops at a declaration, if it gets there and cannot judge it. -/
def unjudged (marks : PrivateMarks) (x : Located) : Option Fault :=
  if isReached marks x.site then Fault.of? (marks.judge x.label.name) else none

/-- Whether a walk that stops there suppresses what stands at a site. -/
def isPrunedUpTo (marks : PrivateMarks) (stop : Option Stop) (s : Site) (l : Label) : Bool :=
  isPruned marks s l && s.isBefore stop

/-- The label after a walk that stops there. -/
def prunedLabel (marks : PrivateMarks) (stop : Option Stop) (s : Site) (l : Label) : Label :=
  if isPrunedUpTo marks stop s l then l.suppress else l

/-- The number of declarations that a walk suppresses which stops there. -/
def countPruned (marks : PrivateMarks) (stop : Option Stop) (xs : List Located) : Nat :=
  xs.countP fun x => isPrunedUpTo marks stop x.site x.label

theorem countPruned_append (stop : Option Stop) (xs ys : List Located) :
    countPruned marks stop (xs ++ ys) = countPruned marks stop xs + countPruned marks stop ys :=
  List.countP_append

/-- Pruning a context is relabelling it up to where the walk stops. -/
theorem prune_eq (marks : PrivateMarks) (context : Decl) :
    let stop := Stop.first? (unjudged marks) (context.survey Site.top)
    context.prune marks =
      { context := context.relabel (prunedLabel marks stop) Site.top
        ignored := countPruned marks stop (context.survey Site.top)
        fault := stop.map Stop.fault } := rfl

/-- Nothing changes where a walk suppresses nothing. -/
theorem relabelAll_eq_self (marks : PrivateMarks) (stop : Option Stop) {ds : List Decl} {s : Site}
    {i : Nat} (spared : ∀ x ∈ surveyAll ds s i, isPrunedUpTo marks stop x.site x.label = false) :
    relabelAll (prunedLabel marks stop) ds s i = ds ∧ countPruned marks stop (surveyAll ds s i) = 0 := by
  constructor
  · rw [relabelAll_congr (g := fun _ l => l) ds s i, relabelAll_self]
    intro x hx
    rw [prunedLabel, spared x hx, if_neg Bool.false_ne_true]
  · rw [countPruned, List.countP_eq_zero]
    intro x hx
    rw [spared x hx]
    exact Bool.false_ne_true

/-- Everything that comes before the stop is pruned as if there were none. -/
theorem relabel_eq_of_isBefore (marks : PrivateMarks) {stop : Option Stop} {d : Decl} {s : Site}
    (before : ∀ x ∈ survey d s, x.site.isBefore stop = true) :
    relabel (prunedLabel marks stop) d s = relabel (prunedLabel marks none) d s ∧
      countPruned marks stop (survey d s) = countPruned marks none (survey d s) := by
  have same : ∀ x ∈ survey d s,
      isPrunedUpTo marks stop x.site x.label = isPrunedUpTo marks none x.site x.label := by
    intro x hx
    rw [isPrunedUpTo, before x hx]
    rfl
  constructor
  · refine relabel_congr d s fun x hx => ?_
    rw [prunedLabel, prunedLabel, same x hx]
  · exact List.countP_congr fun x hx => by rw [same x hx]

/-- The walk gets to the members of what it has spared. -/
theorem isReached_inside {s : Site} {l : Label} (reached : isReached marks s = true)
    (spared : marks.isPrivate l.name = false) (i : Nat) :
    isReached marks ((s.inside l).child i) = true := by
  rw [isReached, Bool.and_eq_true, Bool.not_eq_true', List.isEmpty_eq_false_iff] at reached
  rw [isReached]
  change (!false && !(l :: s.scope).dropLast.any _) = true
  rw [List.dropLast_cons_of_ne_nil reached.1, List.any_cons, spared]
  exact reached.2

/-- The walk does not get to what stands in something private. -/
theorem isReached_eq_false {s : Site} {l : Label} (reached : isReached marks s = true)
    (hidden : marks.isPrivate l.name = true) {ms : List Decl} {y : Located}
    (hy : y ∈ surveyAll ms (s.inside l) 0) : isReached marks y.site = false := by
  rw [isReached, Bool.and_eq_true, Bool.not_eq_true', List.isEmpty_eq_false_iff] at reached
  obtain ⟨j, m, -, hy⟩ := mem_surveyAll.1 hy
  have above : l :: s.scope <:+ y.site.scope := by
    rcases List.suffix_cons_iff.1 (survey_below hy).2 with h | h
    · rw [← (List.cons.inj h).2]
      exact List.suffix_rfl
    · exact (List.suffix_cons _ _).trans h
  obtain ⟨inner, hi⟩ := above
  rw [isReached, ← hi, List.dropLast_append_of_ne_nil (List.cons_ne_nil l s.scope),
    List.dropLast_cons_of_ne_nil reached.1, List.any_append, List.any_cons, hidden]
  simp

/-- The walk stops at a declaration that it gets to and cannot judge. -/
theorem first?_survey_of_error {s : Site} {l : Label} {fault : Fault}
    (reached : isReached marks s = true) (judged : marks.judge l.name = .error fault)
    (ms : List Decl) :
    Stop.first? (unjudged marks) (survey (node l ms) s) = some ⟨s.address, fault⟩ := by
  have here : unjudged marks ⟨s, node l ms⟩ = Fault.of? (marks.judge l.name) := if_pos reached
  simp [survey, Stop.first?, here, judged, Fault.of?]

/-- At a declaration that it can judge, the walk goes on to the members. -/
theorem first?_survey_of_ok {s : Site} {l : Label} {verdict : Bool}
    (reached : isReached marks s = true) (judged : marks.judge l.name = .ok verdict)
    (ms : List Decl) :
    Stop.first? (unjudged marks) (survey (node l ms) s) =
      Stop.first? (unjudged marks) (surveyAll ms (s.inside l) 0) := by
  have here : unjudged marks ⟨s, node l ms⟩ = Fault.of? (marks.judge l.name) := if_pos reached
  simp [survey, Stop.first?, here, judged, Fault.of?]

/-- Nothing inside a declaration is suppressed where the walk stops at it. -/
theorem relabelAll_of_stop (marks : PrivateMarks) (s : Site) (l : Label) (ms : List Decl)
    (fault : Fault) :
    relabelAll (prunedLabel marks (some ⟨s.address, fault⟩)) ms (s.inside l) 0 = ms ∧
      countPruned marks (some ⟨s.address, fault⟩) (surveyAll ms (s.inside l) 0) = 0 := by
  refine relabelAll_eq_self marks _ fun y hy => ?_
  have later := List.lt_asymm (address_lt_of_inside hy)
  simp [isPrunedUpTo, Site.isBefore, later]

/-- Nothing inside a private declaration is looked at. -/
theorem relabelAll_of_isPrivate {s : Site} {l : Label} (reached : isReached marks s = true)
    (hidden : marks.isPrivate l.name = true) (ms : List Decl) :
    Stop.first? (unjudged marks) (surveyAll ms (s.inside l) 0) = none ∧
      relabelAll (prunedLabel marks none) ms (s.inside l) 0 = ms ∧
      countPruned marks none (surveyAll ms (s.inside l) 0) = 0 := by
  have inside : ∀ x ∈ surveyAll ms (s.inside l) 0, isReached marks x.site = false :=
    fun x => isReached_eq_false reached hidden
  refine ⟨Stop.first?_eq_none_iff.2 fun x hx => ?_, relabelAll_eq_self marks none fun x hx => ?_⟩
  · simp [unjudged, inside x hx]
  · rw [isPrunedUpTo, isPruned, inside x hx, Bool.false_and, Bool.false_and]

mutual

/-- Pruning a declaration that the walk gets to is relabelling it. -/
theorem pruneSelf_eq (marks : PrivateMarks) (d : Decl) (s : Site) (before : Nat)
    (reached : isReached marks s = true) :
    let stop := Stop.first? (unjudged marks) (survey d s)
    pruneSelf marks d before =
      { context := relabel (prunedLabel marks stop) d s
        ignored := before + countPruned marks stop (survey d s)
        fault := stop.map Stop.fault } :=
  match d with
  | node l ms => by
    have label : ∀ stop, isPrunedUpTo marks stop s l =
        (marks.isPrivate l.name && s.isBefore stop) := fun stop => by
      rw [isPrunedUpTo, isPruned, reached, Bool.true_and]
    have count : ∀ stop, countPruned marks stop (survey (node l ms) s) =
        countPruned marks stop (surveyAll ms (s.inside l) 0) +
          if isPrunedUpTo marks stop s l then 1 else 0 := fun stop => List.countP_cons
    dsimp only
    rw [pruneSelf]
    cases judged : marks.judge l.name with
    | error fault =>
      have self : isPrunedUpTo marks (some ⟨s.address, fault⟩) s l = false := by
        simp [label, Site.isBefore]
      obtain ⟨members, none⟩ := relabelAll_of_stop marks s l ms fault
      rw [first?_survey_of_error reached judged, count, relabel, members, none, prunedLabel, self]
      rfl
    | ok verdict =>
      have isPrivate : marks.isPrivate l.name = verdict := Tree.isPrivate_of_judge judged
      rw [first?_survey_of_ok reached judged, count, relabel, prunedLabel, label, isPrivate]
      cases verdict with
      | true =>
        obtain ⟨stop, members, none⟩ := relabelAll_of_isPrivate reached isPrivate ms
        rw [stop, members, none]
        rfl
      | false =>
        have below := pruneMembers_eq marks ms (s.inside l) 0 before
          (isReached_inside reached isPrivate)
        dsimp only at below ⊢
        rw [below]
        rfl
termination_by structural d

/-- Pruning the members that the walk gets to is relabelling them. -/
theorem pruneMembers_eq (marks : PrivateMarks) (ds : List Decl) (s : Site) (i before : Nat)
    (reached : ∀ j, isReached marks (s.child j) = true) :
    let stop := Stop.first? (unjudged marks) (surveyAll ds s i)
    pruneMembers marks ds before =
      { members := relabelAll (prunedLabel marks stop) ds s i
        ignored := before + countPruned marks stop (surveyAll ds s i)
        fault := stop.map Stop.fault } :=
  match ds with
  | [] => rfl
  | d :: ds => by
    have first := pruneSelf_eq marks d (s.child i) before (reached i)
    dsimp only at first ⊢
    rw [pruneMembers, surveyAll, Stop.first?_append, relabelAll]
    cases stop : Stop.first? (unjudged marks) (survey d (s.child i)) with
    | some halt =>
      -- Nothing behind comes before the stop.
      obtain ⟨members, count⟩ := relabelAll_eq_self marks (some halt) fun y hy => by
        rw [isPrunedUpTo, Stop.not_isBefore_of_later (fun x hx => address_lt_of_behind hx hy) stop,
          Bool.and_false]
      rw [stop] at first
      rw [first, Option.some_or, members, countPruned_append, count]
      rfl
    | none =>
      -- Everything in the first comes before the stop, if there is one behind.
      have others := pruneMembers_eq marks ds s (i + 1)
        (before + countPruned marks none (survey d (s.child i))) reached
      dsimp only at others
      obtain ⟨self, count⟩ := relabel_eq_of_isBefore marks fun x hx =>
        Stop.isBefore_of_earlier (unjudged marks) fun y (hy : y ∈ surveyAll ds s (i + 1)) =>
          address_lt_of_behind hx hy
      rw [stop] at first
      rw [first, Option.none_or]
      dsimp only [Option.map_none]
      rw [others, self, countPruned_append, count, Nat.add_assoc]
termination_by structural ds

end

/-- Pruning in turn is pruning, with what is suppressed counted on from before. -/
theorem pruneInTurn_eq (marks : PrivateMarks) (context : Decl) (before : Nat) :
    context.pruneInTurn marks before =
      { context.prune marks with ignored := before + (context.prune marks).ignored } := by
  obtain ⟨l, ms⟩ := context
  have below := pruneMembers_eq marks ms (Site.top.inside l) 0 before fun j => rfl
  have stop : Stop.first? (unjudged marks) (survey (node l ms) Site.top) =
      Stop.first? (unjudged marks) (surveyAll ms (Site.top.inside l) 0) := rfl
  have count : ∀ stop, countPruned marks stop (survey (node l ms) Site.top) =
      countPruned marks stop (surveyAll ms (Site.top.inside l) 0) := fun stop => List.countP_cons
  rw [pruneInTurn, prune_eq, stop]
  dsimp only at below ⊢
  rw [members_node, below, count, relabel]
  rfl

end Decl

/-! ## What is pruned -/

namespace Located

/-- A declaration stands inside another, at any depth. -/
def IsBelow (y x : Located) : Prop :=
  x.site.address <+: y.site.address ∧ y.site.address ≠ x.site.address

instance (y x : Located) : Decidable (y.IsBelow x) := inferInstanceAs (Decidable (_ ∧ _))

/-- A declaration below a context with nothing private in between. -/
structure IsOpenTo (marks : PrivateMarks) (t : Tree) (y context : Located) : Prop where
  /-- It stands inside the context. -/
  below : y.IsBelow context
  /-- Nothing private that is itself inside the context stands above it. -/
  clear : ∀ z ∈ t.survey, z.IsBelow context → y.IsBelow z → marks.isPrivate z.label.name = false

end Located

namespace Tree

variable {marks : PrivateMarks} {t : Tree} {x y : Located}

/-- Whatever stands at or below a declaration of a tree is what is found there, from the declaration
on. -/
theorem mem_survey_below (here : x ∈ t.survey) :
    y ∈ x.decl.survey x.site ↔ y ∈ t.survey ∧ x.site.address <+: y.site.address := by
  constructor
  · intro hy
    refine ⟨?_, (Decl.survey_below hy).1⟩
    exact Decl.survey_induction (P := (· ∈ t.survey)) (fun z hz i m hm => member_mem_survey hz hm)
      x.decl x.site here y hy
  · rintro ⟨hy, below⟩
    revert below
    refine survey_induction (P := fun y => x.site.address <+: y.site.address →
      y ∈ x.decl.survey x.site) ?_ ?_ y hy
    · intro i d hd below
      rcases List.prefix_concat_iff.1 below with h | h
      · rw [← eq_of_address_eq here (unit_mem_survey hd) h]
        exact Decl.mem_survey.2 (Or.inl rfl)
      · exact absurd (List.prefix_nil.1 h) (address_ne_nil here)
    · intro z hz ih i m hm below
      rcases List.prefix_concat_iff.1 below with h | h
      · rw [← eq_of_address_eq here (member_mem_survey hz hm) h]
        exact Decl.mem_survey.2 (Or.inl rfl)
      · exact Decl.member_mem_survey (ih h) hm

/-- Counting what stands at or below a declaration of a tree is counting from the declaration on. -/
theorem countP_survey_below (here : x ∈ t.survey) {p : Located → Bool}
    (below : ∀ y ∈ t.survey, p y = true → x.site.address <+: y.site.address) :
    t.survey.countP p = (x.decl.survey x.site).countP p := by
  have once : (x.decl.survey x.site).Nodup := by
    refine (Decl.pairwise_survey x.decl x.site).imp fun lt => ?_
    rintro rfl
    exact List.lt_irrefl _ lt
  have same : (t.survey.filter p).Perm ((x.decl.survey x.site).filter p) := by
    refine (List.perm_ext_iff_of_nodup (t.nodup_survey.filter p) (once.filter p)).2 fun y => ?_
    rw [List.mem_filter, List.mem_filter, mem_survey_below here]
    exact ⟨fun h => ⟨⟨h.1, below y h.1 h.2⟩, h.2⟩, fun h => ⟨h.1.1, h.2⟩⟩
  rw [List.countP_eq_length_filter, List.countP_eq_length_filter, same.length_eq]

end Tree

/-- A declaration, seen from the place at which another stands that it stands in. -/
def Located.seenFrom (s : Site) (y : Located) : Located := ⟨s.graft y.site, y.decl⟩

/-- A declaration as a tree of its own. -/
def Decl.alone (d : Decl) : Tree := { units := [d] }

namespace Tree

variable {marks : PrivateMarks} {t : Tree} {x y : Located}

/-- What is found from a declaration on is found in the tree, seen from the declaration. -/
theorem mem_survey_seenFrom (here : x ∈ t.survey) :
    y ∈ t.survey ∧ x.site.address <+: y.site.address ↔
      ∃ z ∈ x.decl.survey Site.top, z.seenFrom x.site = y := by
  have survey := Decl.survey_graft x.decl x.site Site.top
  rw [Site.graft_top] at survey
  rw [← mem_survey_below here, survey, List.mem_map]
  rfl

/-- The declarations of a declaration that is a tree of its own. -/
theorem mem_survey_alone {d : Decl} :
    y ∈ d.alone.survey ↔ ∃ z ∈ d.survey Site.top, z.seenFrom (Site.top.child 0) = y := by
  have survey := Decl.survey_graft d (Site.top.child 0) Site.top
  rw [Site.graft_top] at survey
  change y ∈ d.survey (Site.top.child 0) ++ [] ↔ _
  rw [List.append_nil, survey, List.mem_map]
  rfl

/-- What stands inside a declaration is what has owners if the declaration stands on top. -/
theorem isBelow_seenFrom {s : Site} {d : Decl} {z : Located} (hz : z ∈ d.survey Site.top) :
    (z.seenFrom s).IsBelow ⟨s, d⟩ ↔ z.site.scope ≠ [] := by
  have top : z.site.scope = [] ↔ z.site.address = [] := by
    rw [← List.length_eq_zero_iff, Decl.length_scope_of_mem_survey hz, List.length_eq_zero_iff]
  change s.address <+: s.address ++ z.site.address ∧ s.address ++ z.site.address ≠ s.address ↔ _
  simp [top]

/-- Of two declarations, one stands inside the other from wherever they are seen. -/
theorem seenFrom_isBelow_seenFrom (s : Site) (y z : Located) :
    (y.seenFrom s).IsBelow (z.seenFrom s) ↔ y.IsBelow z := by
  change s.address ++ z.site.address <+: s.address ++ y.site.address ∧
    s.address ++ y.site.address ≠ s.address ++ z.site.address ↔ _
  rw [List.prefix_append_right_inj, ne_eq, List.append_cancel_left_eq]
  rfl

/-- The walk gets to what is open to the context. -/
theorem isReached_iff_isOpenTo (here : x ∈ t.survey) {z : Located}
    (hz : z ∈ x.decl.survey Site.top) :
    Decl.isReached marks z.site = true ↔ (z.seenFrom x.site).IsOpenTo marks t x := by
  have reached : Decl.isReached marks (z.seenFrom (Site.top.child 0)).site =
      Decl.isReached marks z.site := by
    simp [Decl.isReached, Located.seenFrom, Site.graft, Site.child, Site.top]
  have scope : ∀ w : Located, (w.seenFrom (Site.top.child 0)).site.scope = w.site.scope := by
    simp [Located.seenFrom, Site.graft, Site.child, Site.top]
  rw [← reached, isReached_iff (mem_survey_alone.2 ⟨z, hz, rfl⟩), scope,
    ← isBelow_seenFrom (s := x.site) hz]
  constructor
  · rintro ⟨below, clear⟩
    refine ⟨below, fun v hv hvx hzv => ?_⟩
    obtain ⟨w, hw, rfl⟩ := (mem_survey_seenFrom here).1 ⟨hv, hvx.1⟩
    have inside := (seenFrom_isBelow_seenFrom (Site.top.child 0) z w).2
      ((seenFrom_isBelow_seenFrom x.site z w).1 hzv)
    refine clear (w.seenFrom (Site.top.child 0)) (mem_survey_alone.2 ⟨w, hw, rfl⟩) inside.1
      inside.2.symm ?_
    rw [scope]
    exact (isBelow_seenFrom hw).1 hvx
  · rintro ⟨below, clear⟩
    refine ⟨below, fun v hv hzv hne hs => ?_⟩
    obtain ⟨w, hw, rfl⟩ := mem_survey_alone.1 hv
    rw [scope] at hs
    refine clear (w.seenFrom x.site) ((mem_survey_seenFrom here).2 ⟨w, hw, rfl⟩).1
      ((isBelow_seenFrom hw).2 hs) ?_
    exact (seenFrom_isBelow_seenFrom x.site z w).2
      ((seenFrom_isBelow_seenFrom (Site.top.child 0) z w).1 ⟨hzv, hne.symm⟩)

/-- Pruning suppresses what is private and open to the context. -/
theorem isPruned_iff (here : x ∈ t.survey) {z : Located} (hz : z ∈ x.decl.survey Site.top) :
    Decl.isPruned marks z.site z.label = true ↔
      (z.seenFrom x.site).IsOpenTo marks t x ∧ marks.isPrivate z.label.name = true := by
  rw [Decl.isPruned, Bool.and_eq_true, isReached_iff_isOpenTo here hz]

/-- Pruning a declaration of a tree comes to an end just if everything open to it can be judged. -/
theorem prune_fault_iff (here : x ∈ t.survey) : (x.decl.prune marks).fault = none ↔
    ∀ y ∈ t.survey, y.IsOpenTo marks t x → ∃ verdict, marks.judge y.label.name = .ok verdict := by
  have stop : (x.decl.prune marks).fault = none ↔ x.decl.pruningStop? marks = none :=
    Option.map_eq_none_iff
  rw [stop, Decl.pruningStop?_eq_none_iff]
  constructor
  · intro h y hy opened
    obtain ⟨z, hz, rfl⟩ := (mem_survey_seenFrom here).1 ⟨hy, opened.below.1⟩
    exact h z hz ((isReached_iff_isOpenTo here hz).2 opened)
  · intro h z hz reached
    exact h (z.seenFrom x.site) ((mem_survey_seenFrom here).2 ⟨z, hz, rfl⟩).1
      ((isReached_iff_isOpenTo here hz).1 reached)

end Tree

namespace Located

instance (marks : PrivateMarks) (t : Tree) (y context : Located) :
    Decidable (y.IsOpenTo marks t context) :=
  decidable_of_iff (y.IsBelow context ∧ ∀ z ∈ t.survey, z.IsBelow context → y.IsBelow z →
    marks.isPrivate z.label.name = false) ⟨fun h => ⟨h.1, h.2⟩, fun h => ⟨h.below, h.clear⟩⟩

/-- A private declaration below a context with nothing private in between. -/
def IsTopmost (marks : PrivateMarks) (t : Tree) (y context : Located) : Prop :=
  y.IsOpenTo marks t context ∧ marks.isPrivate y.label.name = true

instance (marks : PrivateMarks) (t : Tree) (y context : Located) :
    Decidable (y.IsTopmost marks t context) := inferInstanceAs (Decidable (_ ∧ _))

/-- Inside a context, the declaration or something above it is private. -/
def IsHidden (marks : PrivateMarks) (t : Tree) (y context : Located) : Prop :=
  ∃ z ∈ t.survey, z.IsBelow context ∧ z.site.address <+: y.site.address ∧
    marks.isPrivate z.label.name = true

/-- What pruning a context makes of a declaration `y` of the tree: a declaration `z` in its place. -/
structure IsPrunedAs (marks : PrivateMarks) (t : Tree) (context y z : Located) : Prop where
  /-- It stands where it stood. -/
  address : z.site.address = y.site.address
  /-- It is suppressed if it is topmost among what is private. -/
  suppressed : y.IsTopmost marks t context → z.label = y.label.suppress
  /-- Otherwise nothing about it is changed. -/
  spared : ¬ y.IsTopmost marks t context → z.label = y.label
  /-- Inside the context it is ignored just if it was or it is hidden there. -/
  isIgnored : y.IsBelow context →
    (z.isIgnored = true ↔ y.isIgnored = true ∨ y.IsHidden marks t context)

end Located

namespace Tree

variable {marks : PrivateMarks} {t : Tree} {x y : Located}

/-- Whatever is hidden has something topmost at or above it. -/
theorem isHidden_iff : y.IsHidden marks t x ↔
    ∃ z ∈ t.survey, z.IsTopmost marks t x ∧ z.site.address <+: y.site.address := by
  constructor
  · rintro ⟨z, hz, below, above, hidden⟩
    -- Of what is private at or above the declaration, the shortest address is topmost.
    induction h : z.site.address.length using Nat.strong_induction_on generalizing z with
    | _ n ih =>
      by_cases clear : ∀ v ∈ t.survey, v.IsBelow x → z.IsBelow v →
          marks.isPrivate v.label.name = false
      · exact ⟨z, hz, ⟨⟨below, clear⟩, hidden⟩, above⟩
      · push Not at clear
        obtain ⟨v, hv, vbelow, inside, vhidden⟩ := clear
        rw [ne_eq, Bool.not_eq_false] at vhidden
        refine ih v.site.address.length ?_ v hv vbelow (inside.1.trans above) vhidden rfl
        rw [← h]
        exact inside.1.length_le.lt_of_ne fun same =>
          inside.2 (inside.1.eq_of_length same).symm
  · rintro ⟨z, hz, topmost, above⟩
    exact ⟨z, hz, topmost.1.below, above, topmost.2⟩

/-- Pruning a context to its end relabels what is topmost in it. -/
theorem relabelBelow_pruned (here : x ∈ t.survey) (hy : y ∈ t.survey) :
    relabelBelow x.site.address (fun s l => if Decl.isPruned marks s l then l.suppress else l) y.site
      y.label = if y.IsTopmost marks t x then y.label.suppress else y.label := by
  by_cases inside : x.site.address <+: y.site.address
  · obtain ⟨z, hz, rfl⟩ := (mem_survey_seenFrom here).1 ⟨hy, inside⟩
    have within : (z.seenFrom x.site).site.within x.site.address.length = z.site :=
      Site.within_graft (Decl.length_scope_of_mem_survey hz)
    have pruned : Decl.isPruned marks z.site (z.seenFrom x.site).label = true ↔
        (z.seenFrom x.site).IsTopmost marks t x := isPruned_iff here hz
    rw [relabelBelow, if_pos (List.isPrefixOf_iff_prefix.2 inside), within]
    simp only [pruned]
  · rw [relabelBelow_of_outside inside, if_neg fun topmost => inside topmost.1.below.1]

/-- The declarations that pruning a context to its end suppresses are those that are topmost in
it. -/
theorem countP_isPruned (here : x ∈ t.survey) :
    (x.decl.survey Site.top).countP (fun z => Decl.isPruned marks z.site z.label) =
      t.survey.countP fun y => decide (y.IsTopmost marks t x) := by
  have survey := Decl.survey_graft x.decl x.site Site.top
  rw [Site.graft_top] at survey
  rw [countP_survey_below here fun y _ topmost => (of_decide_eq_true topmost).1.below.1, survey,
    List.countP_map]
  refine List.countP_congr fun z hz => ?_
  rw [isPruned_iff here hz]
  exact decide_eq_true_iff.symm

end Tree

/-- Both marks can be compared with texts. -/
def PrivateMarks.IsUsable (marks : PrivateMarks) : Prop :=
  marks.leading ≠ .unusable ∧ marks.trailing ≠ .unusable

/-- A mark that can be compared with texts is borne by a text just if it is set and stands there. -/
theorem Mark.isBorne_text {mark : Mark} (usable : mark ≠ .unusable) (part : String)
    (bears : List Char → List Char → Bool) (name : String) :
    ∃ verdict, mark.isBorne part bears (.text name) = .ok verdict ∧ (verdict = true ↔
      ∃ affix, mark = .reserved affix ∧ bears affix.toList name.toList = true) := by
  cases mark with
  | unset => exact ⟨false, rfl, by simp⟩
  | reserved affix => exact ⟨bears affix.toList name.toList, rfl, by simp⟩
  | unusable => exact absurd rfl usable

/-- A text can always be judged. It is private if it begins with the leading mark or ends with the
trailing one; a mark that is not set, and an empty text, make nothing private. -/
theorem PrivateMarks.judge_text {marks : PrivateMarks} (usable : marks.IsUsable) (name : String) :
    marks.judge (.text name) = .ok (marks.isPrivate (.text name)) ∧
      (marks.isPrivate (.text name) = true ↔ name ≠ "" ∧
        ((∃ affix, marks.leading = .reserved affix ∧ affix.toList <+: name.toList) ∨
          ∃ affix, marks.trailing = .reserved affix ∧ affix.toList <:+ name.toList)) := by
  obtain ⟨begins, front, leading⟩ := marks.leading.isBorne_text usable.1 "startswith"
    List.isPrefixOf name
  obtain ⟨ends, back, trailing⟩ := marks.trailing.isBorne_text usable.2 "endswith"
    List.isSuffixOf name
  simp only [List.isPrefixOf_iff_prefix, List.isSuffixOf_iff_suffix] at leading trailing
  rw [← leading, ← trailing]
  by_cases empty : name = "" <;> cases begins <;>
    simp [isPrivate, judge, Value.isGiven, empty, front, back]

namespace Tree

variable {marks : PrivateMarks} {t : Tree} {context : Located}

/-- What pruning a context to its end makes of the declarations of the tree. -/
theorem isPrunedAs_relabel {f : Site → Label → Label}
    (pruning : ∀ y ∈ t.survey, f y.site y.label =
      if y.IsTopmost marks t context then y.label.suppress else y.label)
    {y : Located} (hy : y ∈ t.survey) : 
    Located.IsPrunedAs marks t context y (y.relabel f) where
  address := rfl
  suppressed topmost := by rw [Located.label_relabel, pruning y hy, if_pos topmost]
  spared spared := by rw [Located.label_relabel, pruning y hy, if_neg spared]
  isIgnored below := by
    have out : ∀ v ∈ t.survey, ((v.relabel f).label.isOut = true ↔
        v.IsTopmost marks t context ∨ v.label.isOut = true) := by
      intro v hv
      rw [Located.label_relabel, pruning v hv]
      by_cases topmost : v.IsTopmost marks t context <;> simp [topmost]
    rw [isIgnored_iff (mem_survey_relabel.2 ⟨y, hy, rfl⟩), isIgnored_iff hy, isHidden_iff]
    constructor
    · rintro ⟨z, hz, above, isOut⟩
      obtain ⟨v, hv, rfl⟩ := mem_survey_relabel.1 hz
      exact ((out v hv).1 isOut).elim (fun topmost => Or.inr ⟨v, hv, topmost, above⟩)
        fun isOut => Or.inl ⟨v, hv, above, isOut⟩
    · rintro (⟨v, hv, above, isOut⟩ | ⟨v, hv, topmost, above⟩)
      · exact ⟨_, mem_survey_relabel.2 ⟨v, hv, rfl⟩, above, (out v hv).2 (Or.inr isOut)⟩
      · exact ⟨_, mem_survey_relabel.2 ⟨v, hv, rfl⟩, above, (out v hv).2 (Or.inl topmost)⟩

/-- Pruning a context suppresses exactly what is private below it with nothing private in between,
and counts it; everything else in the whole tree stays as it is, the context included. In the end
what stands below the context is ignored just if it was or something private there is at or above
it. It is all the same whether this is done by going through the tree or at once, and it comes to an
end if everything that is open to the context can be judged, as texts can. -/
theorem prunes_topmost (marks : PrivateMarks) {t : Tree} {context : Located}
    (here : context ∈ t.survey) :
    let pruned := context.decl.prune marks
    let after := t.pruneAt marks context.site.address
    (∀ before, context.decl.pruneInTurn marks before =
      { pruned with ignored := before + pruned.ignored }) ∧
    (pruned.fault = none ↔ ∀ y ∈ t.survey, y.IsOpenTo marks t context →
      ∃ verdict, marks.judge y.label.name = .ok verdict) ∧
    (marks.IsUsable → (∀ y ∈ t.survey, y.IsBelow context → y.label.name.isText = true) →
      pruned.fault = none) ∧
    (pruned.fault = none →
      after.stage = t.stage ∧
      List.Forall₂ (Located.IsPrunedAs marks t context) t.survey after.survey ∧
      pruned.ignored = t.survey.countP fun y => decide (y.IsTopmost marks t context)) := by
  intro pruned after
  refine ⟨context.decl.pruneInTurn_eq marks, prune_fault_iff here, ?_, fun completes => ?_⟩
  · intro usable texts
    refine (prune_fault_iff here).2 fun y hy opened => ?_
    obtain ⟨name, given⟩ := Value.exists_eq_text (texts y hy opened.below)
    rw [given]
    exact ⟨_, (PrivateMarks.judge_text usable name).1⟩
  have stop : context.decl.pruningStop? marks = none := Option.map_eq_none_iff.1 completes
  have relabelled : after = t.relabel (relabelBelow context.site.address fun s l =>
      if Decl.isPruned marks s l then l.suppress else l) := by
    have after := pruneAt_eq_relabel marks (address_ne_nil here) (locate?_address here)
    simpa only [stop, Site.isBefore, Option.all_none, Bool.and_true] using after
  refine ⟨by rw [relabelled]; rfl, ?_, ?_⟩
  · rw [relabelled, survey_relabel, List.forall₂_map_right_iff, List.forall₂_same]
    exact fun y hy => isPrunedAs_relabel (fun v hv => relabelBelow_pruned here hv) hy
  · have counted : pruned.ignored = (context.decl.survey Site.top).countP fun z =>
        Decl.isPruned marks z.site z.label && z.site.isBefore (context.decl.pruningStop? marks) := rfl
    rw [counted, stop, ← countP_isPruned here]
    simp only [Site.isBefore, Option.all_none, Bool.and_true]

/-- In the sample the first header loses its one private class, whose member keeps its own label but
is ignored with it. -/
theorem prunes_topmost_sample :
    let context : Located := ⟨Site.top.child 0, sampleTree.units[0]⟩
    let pruned := context.decl.prune {}
    context ∈ sampleTree.survey ∧ pruned.fault = none ∧ pruned.ignored = 1 ∧
      (sampleTree.survey.filter fun y => decide (y.IsTopmost {} sampleTree context)).map
        (fun y => y.label.name) = [.text "PrivateColor"] ∧
      List.Forall₂ (Located.IsPrunedAs {} sampleTree context) sampleTree.survey
        (sampleTree.pruneAt {} [0]).survey := by
  intro context pruned
  have here : context ∈ sampleTree.survey := List.mem_cons_self
  have texts : ∀ y ∈ sampleTree.survey, y.label.name.isText = true := by decide
  obtain ⟨-, -, judged, completes⟩ := prunes_topmost {} here
  have fault : pruned.fault = none := judged ⟨by decide, by decide⟩ fun y hy _ => texts y hy
  obtain ⟨-, all, -⟩ := completes fault
  exact ⟨here, fault, rfl, by decide, all⟩

end Tree

end Bindery
