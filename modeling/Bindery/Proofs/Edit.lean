import Bindery.Proofs.Place
import Bindery.Tree.Edit

/-!
# Edits as relabellings

Suppressing, linking and pruning at an address relabel what stands there and below, and nothing
else.
-/

namespace Bindery

/-- The site as it is seen from the `n`-th declaration of its address, which stands on top. -/
def Site.within (n : Nat) (s : Site) : Site :=
  ⟨s.address.drop n, s.scope.take (s.address.length - n)⟩

/-- What stands below the top is seen as it is from any place that it is grafted to. -/
theorem Site.within_graft {s r : Site} (h : r.scope.length = r.address.length) :
    (s.graft r).within s.address.length = r := by
  have scope : (r.scope ++ s.scope).take ((s.address ++ r.address).length - s.address.length) =
      r.scope := by
    rw [List.length_append, Nat.add_sub_cancel_left, ← h, List.take_left]
  rw [graft, within, scope, List.drop_left]

/-- The relabelling that maps only what stands at or below an address. -/
def relabelBelow (address : List Nat) (g : Site → Label → Label) (s : Site) (l : Label) : Label :=
  if address.isPrefixOf s.address then g (s.within address.length) l else l

/-- What does not stand at or below the address stays. -/
theorem relabelBelow_of_outside {address : List Nat} {g : Site → Label → Label} {s : Site}
    {l : Label} (h : ¬ address <+: s.address) : relabelBelow address g s l = l := by
  rw [relabelBelow, if_neg]
  rwa [List.isPrefixOf_iff_prefix]

namespace Decl

/-- Relabelling below an address leaves what stands elsewhere. -/
theorem relabel_relabelBelow_of_ne {address : List Nat} {g : Site → Label → Label} {s : Site}
    {i j : Nat} {rest : List Nat} (h : address = s.address ++ i :: rest) (hne : j ≠ i) (d : Decl) :
    relabel (relabelBelow address g) d (s.child j) = d := by
  rw [relabel_congr (g := fun _ l => l) d (s.child j), relabel_self]
  intro x hx
  refine relabelBelow_of_outside fun hp => hne ?_
  obtain ⟨p, hp'⟩ := (survey_below hx).1
  obtain ⟨q, hq⟩ := hp
  rw [← hp', h] at hq
  have he : j = i ∧ p = rest ++ q := by simpa [Site.child] using hq.symm
  exact he.1

/-- Relabelling below the address of a declaration is relabelling the declaration. -/
theorem relabel_relabelBelow_self (g : Site → Label → Label) (s : Site) (i : Nat) (d : Decl) :
    relabel (relabelBelow (s.address ++ [i]) g) d (s.child i) = relabel g d Site.top := by
  have hg := relabel_graft (relabelBelow (s.address ++ [i]) g) d (s.child i) Site.top
  rw [Site.graft_top] at hg
  rw [hg]
  refine relabel_congr d Site.top fun x hx => ?_
  have hp : (s.address ++ [i]).isPrefixOf ((s.child i).graft x.site).address = true :=
    List.isPrefixOf_iff_prefix.2 (List.prefix_append _ _)
  have hw : ((s.child i).graft x.site).within (s.address ++ [i]).length = x.site :=
    Site.within_graft (s := s.child i) (length_scope_of_mem_survey hx)
  rw [relabelBelow, if_pos hp, hw]

/-- Changing a declaration by relabelling it is relabelling below its address. -/
theorem modifyAt_relabel (g : Site → Label → Label) (path : List Nat) :
    ∀ (ds : List Decl) (s : Site), path ≠ [] →
      modifyAt (fun d => relabel g d Site.top) path ds =
        relabelAll (relabelBelow (s.address ++ path) g) ds s 0 := by
  induction path with
  | nil =>
    intro ds s h
    exact absurd rfl h
  | cons i rest ih =>
    intro ds s _
    refine List.ext_getElem? fun j => ?_
    rw [getElem?_relabelAll, Nat.zero_add]
    cases rest with
    | nil =>
      rw [modifyAt, List.getElem?_modify]
      refine Option.map_congr fun d _ => ?_
      by_cases h : i = j
      · subst h
        rw [if_pos rfl, relabel_relabelBelow_self]
      · rw [if_neg h, relabel_relabelBelow_of_ne rfl (Ne.symm h)]
    | cons k rest =>
      rw [modifyAt, List.getElem?_modify]
      refine Option.map_congr fun d _ => ?_
      by_cases h : i = j
      · subst h
        obtain ⟨l, ms⟩ := d
        have hl : relabelBelow (s.address ++ i :: k :: rest) g (s.child i) l = l := by
          refine relabelBelow_of_outside fun hp => ?_
          have := hp.length_le
          simp [Site.child] at this
        have ih := ih ms ((s.child i).inside l) (List.cons_ne_nil k rest)
        have ha : ((s.child i).inside l).address ++ k :: rest = s.address ++ i :: k :: rest := by
          simp [Site.inside, Site.child]
        rw [ha] at ih
        simp [relabel, hl, ih]
      · rw [if_neg h, relabel_relabelBelow_of_ne rfl (Ne.symm h)]

/-- Only what happens to the declaration at the address matters for a change. -/
theorem modifyAt_congr {f h : Decl → Decl} (path : List Nat) :
    ∀ (ds : List Decl) (s : Site), (∀ x ∈ locate? ds s path, f x.decl = h x.decl) →
      modifyAt f path ds = modifyAt h path ds := by
  induction path with
  | nil => exact fun _ _ _ => rfl
  | cons i rest ih =>
    intro ds s hx
    refine List.ext_getElem? fun j => ?_
    cases rest with
    | nil =>
      rw [modifyAt, modifyAt, List.getElem?_modify, List.getElem?_modify]
      refine Option.map_congr fun d hd => ?_
      by_cases hij : i = j
      · subst hij
        have hl : locate? ds s [i] = some ⟨s.child i, d⟩ := by
          rw [locate?, Option.mem_def.1 hd, Option.map_some]
        simpa using hx _ hl
      · rw [if_neg hij, if_neg hij]
    | cons k rest =>
      rw [modifyAt, modifyAt, List.getElem?_modify, List.getElem?_modify]
      refine Option.map_congr fun d hd => ?_
      by_cases hij : i = j
      · subst hij
        obtain ⟨l, ms⟩ := d
        have ih := ih ms ((s.child i).inside l) fun x hl => hx x <| by
          rw [locate?, Option.mem_def.1 hd]
          exact hl
        simp [ih]
      · rw [if_neg hij, if_neg hij]

/-- Suppressing a declaration is relabelling it on top. -/
theorem relabel_suppress (d : Decl) :
    node d.label.suppress d.members =
      relabel (fun s l => if s.address = [] then l.suppress else l) d Site.top := by
  obtain ⟨l, ms⟩ := d
  have hs : relabelAll (fun s l => if s.address = [] then l.suppress else l) ms
      (Site.top.inside l) 0 = ms := by
    rw [relabelAll_congr (g := fun _ l => l) ms _ 0, relabelAll_self]
    intro x hx
    obtain ⟨j, m, -, hx⟩ := mem_surveyAll.1 hx
    rw [if_neg]
    intro h
    have hp := (survey_below hx).1
    rw [h] at hp
    exact absurd (List.prefix_nil.1 hp) (by simp [Site.child])
  rw [relabel, hs]
  rfl

end Decl

namespace Tree

/-- Changing a declaration of a tree by relabelling it is relabelling below its address. -/
theorem modifyAt_relabel (g : Site → Label → Label) {address : List Nat} (h : address ≠ [])
    (t : Tree) :
    t.modifyAt (fun d => d.relabel g Site.top) address = t.relabel (relabelBelow address g) :=
  congrArg (Tree.mk t.stage) (Decl.modifyAt_relabel g address t.units Site.top h)

/-- Suppressing a declaration of a tree relabels it alone. -/
theorem suppressAt_eq_relabel {address : List Nat} (h : address ≠ []) (t : Tree) :
    t.suppressAt address = t.relabel (relabelBelow address fun s l =>
      if s.address = [] then l.suppress else l) := by
  rw [← modifyAt_relabel _ h, suppressAt]
  exact congrArg (fun f => t.modifyAt f address) (funext Decl.relabel_suppress)

/-- Pruning below a declaration of a tree relabels what stands below. -/
theorem pruneAt_eq_relabel (marks : PrivateMarks) {address : List Nat} {t : Tree} {x : Located}
    (h : address ≠ []) (hx : t.locate? address = some x) :
    t.pruneAt marks address = t.relabel (relabelBelow address fun s l =>
      if Decl.isPruned marks s l && s.isBefore (Decl.pruningStop? marks x.decl) then l.suppress
      else l) := by
  rw [← modifyAt_relabel _ h, pruneAt]
  refine congrArg (Tree.mk t.stage) (Decl.modifyAt_congr address t.units Site.top fun y hy => ?_)
  obtain rfl : x = y := Option.some.inj (hx.symm.trans hy)
  rfl

/-- Where there is no declaration, nothing is pruned. -/
theorem pruneAt_of_locate?_eq_none (marks : PrivateMarks) {address : List Nat} {t : Tree}
    (hx : t.locate? address = none) : t.pruneAt marks address = t := by
  have hc : t.pruneAt marks address =
      t.modifyAt (fun d => d.relabel (fun _ l => l) Site.top) address :=
    congrArg (Tree.mk t.stage) (Decl.modifyAt_congr address t.units Site.top fun y hy =>
      absurd (hx.symm.trans hy) (by simp))
  rcases eq_or_ne address [] with rfl | h
  · rfl
  · rw [hc, modifyAt_relabel _ h, relabel_eq_self_iff]
    intro y _
    rw [relabelBelow, ite_self]

/-- Linking a declaration of a tree relabels it and everything below. -/
theorem linkAt_eq_relabel {address : List Nat} (h : address ≠ []) (t : Tree) :
    t.linkAt address =
      t.relabel (relabelBelow address fun _ l => { l with treatment := .link }) :=
  modifyAt_relabel _ h t

end Tree

end Bindery
