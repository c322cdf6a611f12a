import Bindery.Inheritance
import Bindery.Proofs.Rearrangement

/-!
# Heirs

The search along an index of base classes follows no name twice, and it has fuel for every base that
is listed anywhere. So it finds out whether one name can be reached from another, whatever the order
of the bases is and of the classes that they were collected from. Main statements:
`BaseIndex.derives_iff`, `Tree.lists_baseIndex`, `Tree.Rearranged.derives`.
-/

namespace Bindery

namespace BaseIndex

/-- Whether a name has another one among its bases. -/
def Lists (index : BaseIndex) (name base : String) : Prop := base ∈ index.basesOf name

/-- How many bases are listed under names that were not followed yet. -/
def edgesLeft (index : BaseIndex) (seen : List String) : Nat :=
  ((index.filter fun e => e.1 ∉ seen).map fun e => e.2.length).sum

variable {index : BaseIndex} {goal name base : String}

/-- An entry that was not followed yet counts. -/
theorem edgesLeft_cons (name : String) (bases : List String) (index : BaseIndex)
    (seen : List String) : edgesLeft ((name, bases) :: index) seen =
      (if name ∈ seen then 0 else bases.length) + index.edgesLeft seen := by
  by_cases h : name ∈ seen <;> simp [edgesLeft, h]

/-- Following one more name leaves no more bases than before. -/
theorem edgesLeft_le (index : BaseIndex) (name : String) (seen : List String) :
    index.edgesLeft (name :: seen) ≤ index.edgesLeft seen := by
  induction index with
  | nil => exact Nat.le_refl _
  | cons e index ih =>
    obtain ⟨k, bases⟩ := e
    rw [edgesLeft_cons, edgesLeft_cons]
    refine Nat.add_le_add ?_ ih
    by_cases hk : k ∈ seen
    · simp [hk]
    · simp only [hk, List.mem_cons, or_false, if_false]
      split <;> omega

/-- The bases of a name count only as long as it was not followed. -/
theorem length_basesOf_add_edgesLeft {seen : List String} (h : name ∉ seen) (index : BaseIndex) :
    (index.basesOf name).length + index.edgesLeft (name :: seen) ≤ index.edgesLeft seen := by
  induction index with
  | nil => exact Nat.le_refl _
  | cons e index ih =>
    obtain ⟨k, bases⟩ := e
    rw [edgesLeft_cons, edgesLeft_cons, basesOf, List.lookup_cons]
    by_cases hk : name = k
    · subst hk
      have later := edgesLeft_le index name seen
      simp only [beq_self_eq_true, Option.getD_some, List.mem_cons, true_or, if_true, h, if_false]
      omega
    · have other : (name == k) = false := beq_eq_false_iff_ne.2 hk
      have swap : k ∈ name :: seen ↔ k ∈ seen := by simp [Ne.symm hk]
      simp only [other, swap]
      rw [basesOf] at ih
      omega

/-- All bases are left as long as no name was followed. -/
theorem edgesLeft_nil (index : BaseIndex) : index.edgesLeft [] = index.edgeCount := by
  rw [edgesLeft, edgeCount, List.filter_eq_self.2 (by simp)]
  exact List.sum_eq_foldl

/-- What the search finds can be reached from a pending name. -/
theorem exists_reaches_of_search (index : BaseIndex) (goal : String) (fuel : Nat) :
    ∀ {pending seen : List String}, index.search goal fuel pending seen = true →
      ∃ name ∈ pending, Relation.ReflTransGen index.Lists name goal := by
  induction fuel with
  | zero => simp [search]
  | succ fuel ih =>
    intro pending seen h
    cases pending with
    | nil => cases h
    | cons name pending =>
      rw [search] at h
      split at h
      · next found => exact ⟨name, List.mem_cons_self, found ▸ .refl⟩
      · split at h
        · obtain ⟨start, hs, hr⟩ := ih h
          exact ⟨start, List.mem_cons_of_mem _ hs, hr⟩
        · obtain ⟨start, hs, hr⟩ := ih h
          rcases List.mem_append.1 hs with hs | hs
          · exact ⟨name, List.mem_cons_self, .head (List.mem_reverse.1 hs) hr⟩
          · exact ⟨start, List.mem_cons_of_mem _ hs, hr⟩

/-- The bases of all names that were followed were followed, too, or are pending. -/
def IsClosed (index : BaseIndex) (seen pending : List String) : Prop :=
  ∀ name ∈ seen, ∀ base, index.Lists name base → base ∈ seen ∨ base ∈ pending

/-- A name that was followed before need not be followed again. -/
theorem IsClosed.skip {seen pending : List String} (h : index.IsClosed seen (name :: pending))
    (known : name ∈ seen) : index.IsClosed seen pending := by
  intro other ho base hb
  rcases h other ho base hb with hb | hb
  · exact Or.inl hb
  · rcases List.mem_cons.1 hb with rfl | hb
    · exact Or.inl known
    · exact Or.inr hb

/-- Following a name makes its bases pending. -/
theorem IsClosed.follow {seen pending : List String} (h : index.IsClosed seen (name :: pending)) :
    index.IsClosed (name :: seen) ((index.basesOf name).reverse ++ pending) := by
  intro other ho base hb
  rcases List.mem_cons.1 ho with rfl | ho
  · exact Or.inr (List.mem_append_left _ (List.mem_reverse.2 hb))
  · rcases h other ho base hb with hb | hb
    · exact Or.inl (List.mem_cons_of_mem _ hb)
    · rcases List.mem_cons.1 hb with rfl | hb
      · exact Or.inl List.mem_cons_self
      · exact Or.inr (List.mem_append_right _ hb)

/-- If nothing is pending, the names that were followed lead to nothing else. -/
theorem IsClosed.not_reaches {seen : List String} (closed : index.IsClosed seen [])
    (fresh : goal ∉ seen) (h : name ∈ seen) : ¬ Relation.ReflTransGen index.Lists name goal := by
  intro reaches
  induction reaches using Relation.ReflTransGen.head_induction_on with
  | refl => exact fresh h
  | head lists _ ih => exact ih ((closed _ h _ lists).resolve_right List.not_mem_nil)

/-- A search with enough fuel that finds nothing has followed all that can be reached from the pending
names, and from those that it had followed before. -/
theorem not_reaches_of_search (index : BaseIndex) (goal : String) (fuel : Nat) :
    ∀ {pending seen : List String}, pending.length + index.edgesLeft seen < fuel → goal ∉ seen →
      index.IsClosed seen pending → index.search goal fuel pending seen = false →
        ∀ name, name ∈ seen ∨ name ∈ pending → ¬ Relation.ReflTransGen index.Lists name goal := by
  induction fuel with
  | zero => exact fun enough => absurd enough (Nat.not_lt_zero _)
  | succ fuel ih =>
    intro pending seen enough fresh closed h
    cases pending with
    | nil => exact fun name hn => closed.not_reaches fresh (by simpa using hn)
    | cons first pending =>
      rw [List.length_cons] at enough
      rw [search] at h
      split at h
      · cases h
      · next differs =>
        split at h
        · -- The name was followed before.
          next known =>
          have later := ih (by omega) fresh (closed.skip known) h
          intro name hn
          rcases hn with hn | hn
          · exact later name (Or.inl hn)
          · rcases List.mem_cons.1 hn with rfl | hn
            · exact later name (Or.inl known)
            · exact later name (Or.inr hn)
        · -- The name is followed now, and its bases become pending.
          next unknown =>
          have left := length_basesOf_add_edgesLeft unknown index
          have later := ih (by simp only [List.length_append, List.length_reverse]; omega)
            (by simp [fresh, Ne.symm differs]) closed.follow h
          intro name hn
          rcases hn with hn | hn
          · exact later name (Or.inl (List.mem_cons_of_mem _ hn))
          · rcases List.mem_cons.1 hn with rfl | hn
            · exact later name (Or.inl List.mem_cons_self)
            · exact later name (Or.inr (List.mem_append_right _ hn))

/-- A class derives from another just if the other's name can be reached along the index. -/
theorem derives_iff (index : BaseIndex) (name goal : String) :
    index.derives name goal = true ↔ Relation.ReflTransGen index.Lists name goal := by
  constructor
  · intro h
    obtain ⟨start, hs, reaches⟩ := exists_reaches_of_search index goal _ h
    rwa [List.mem_singleton.1 hs] at reaches
  · intro reaches
    by_contra h
    refine not_reaches_of_search index goal _ ?_ List.not_mem_nil (by simp [IsClosed])
      (Bool.eq_false_iff.2 h) name (Or.inr List.mem_cons_self) reaches
    rw [edgesLeft_nil, List.length_singleton]
    omega

/-- The entry under a name after bases were appended under one. -/
theorem lookup_append (name other : String) (bases : List String) (index : BaseIndex) :
    (index.append name bases).lookup other =
      if other = name then some (index.basesOf name ++ bases) else index.lookup other := by
  induction index with
  | nil =>
    by_cases h : other = name
    · simp [append, basesOf, h]
    · simp [append, List.lookup_cons, beq_eq_false_iff_ne.2 h, h]
  | cons e index ih =>
    obtain ⟨k, known⟩ := e
    rw [append]
    by_cases hk : k = name
    · subst hk
      by_cases h : other = k
      · simp [basesOf, h]
      · simp [List.lookup_cons, beq_eq_false_iff_ne.2 h, h]
    · rw [if_neg hk, List.lookup_cons, ih, basesOf, basesOf, List.lookup_cons, List.lookup_cons,
        beq_eq_false_iff_ne.2 (Ne.symm hk)]
      by_cases h : other = k
      · simp [h, hk]
      · simp [beq_eq_false_iff_ne.2 h]

/-- Bases that are appended under a name are listed there. -/
theorem basesOf_append (name other : String) (bases : List String) (index : BaseIndex) :
    (index.append name bases).basesOf other =
      index.basesOf other ++ if other = name then bases else [] := by
  rw [basesOf, lookup_append]
  split
  · next h => rw [h, Option.getD_some]
  · rw [List.append_nil, basesOf]

end BaseIndex

/-- The names of the direct base classes, if it is a class. -/
def Located.bases (x : Located) : List String :=
  match x.label.form.classTraits? with
  | some traits => traits.bases
  | none => []

namespace Tree

/-- The classes of a name among some declarations. -/
def classesNamed (name : String) (xs : List Located) : List Located :=
  xs.filter fun x => x.label.form.isClass && x.qualifiedName == name

/-- The first of some declarations is a class of a name, or the classes are among the others. -/
theorem classesNamed_cons (name : String) (x : Located) (xs : List Located) :
    classesNamed name (x :: xs) =
      if (x.label.form.isClass && x.qualifiedName == name) = true then x :: classesNamed name xs
      else classesNamed name xs :=
  List.filter_cons

/-- Going through declarations appends the bases of the classes of a name to what is listed under it,
in order; a name that no class has is listed as before. -/
theorem lookup_foldl_append (name : String) (xs : List Located) : ∀ index : BaseIndex,
    (xs.foldl (fun index x => match x.label.form.classTraits? with
      | some traits => index.append x.qualifiedName traits.bases
      | none => index) index).lookup name =
        if classesNamed name xs = [] then index.lookup name
        else some (index.basesOf name ++ (classesNamed name xs).flatMap Located.bases) := by
  induction xs with
  | nil => exact fun _ => rfl
  | cons x xs ih =>
    intro index
    rw [List.foldl_cons, ih, classesNamed_cons]
    cases ht : x.label.form.classTraits? with
    | none =>
      have other : x.label.form.isClass = false := by rw [Form.isClass, ht]; rfl
      rw [other, Bool.false_and, if_neg Bool.false_ne_true]
    | some traits =>
      have isClass : x.label.form.isClass = true := by rw [Form.isClass, ht]; rfl
      have bases : x.bases = traits.bases := by rw [Located.bases, ht]
      dsimp only
      rw [isClass, Bool.true_and, BaseIndex.lookup_append, BaseIndex.basesOf_append]
      by_cases hn : x.qualifiedName = name
      · subst hn
        simp only [beq_self_eq_true, if_true, List.flatMap_cons, bases, reduceCtorEq, if_false]
        split
        · next none => simp [none]
        · rw [List.append_assoc]
      · simp [hn, Ne.symm hn]

/-- The index of a tree lists under a name the bases of all classes of that name, one after the other
in the order of the survey, and has no entry for what is no class. -/
theorem lookup_baseIndex (t : Tree) (name : String) :
    t.baseIndex.lookup name =
      if t.findClasses name = [] then none else some ((t.findClasses name).flatMap Located.bases) :=
  lookup_foldl_append name t.survey []

/-- Whether a class of a name has another name among its bases, by any of its declarations. -/
def HasBase (t : Tree) (name base : String) : Prop := ∃ x ∈ t.findClasses name, base ∈ x.bases

/-- The index of a tree lists what any declaration of a class has for a base. -/
theorem lists_baseIndex (t : Tree) : t.baseIndex.Lists = t.HasBase := by
  funext name base
  rw [eq_iff_iff, BaseIndex.Lists, BaseIndex.basesOf, lookup_baseIndex, HasBase]
  split
  · next none => simp [none]
  · rw [Option.getD_some, List.mem_flatMap]

namespace Rearranged

variable {σ : Equiv.Perm Nat} {t t' : Tree}

/-- What has which bases is no matter of the order of units. -/
theorem hasBase (h : t.Rearranged σ t') : t'.HasBase = t.HasBase := by
  funext name base
  simp only [HasBase, findClasses, List.mem_filter, eq_iff_iff]
  constructor
  · rintro ⟨y, ⟨hy, named⟩, hb⟩
    obtain ⟨x, hx, rfl⟩ := h.mem_survey_iff.1 hy
    exact ⟨x, ⟨hx, named⟩, hb⟩
  · rintro ⟨x, ⟨hx, named⟩, hb⟩
    exact ⟨x.move σ, ⟨h.move_mem hx, named⟩, hb⟩

/-- What derives from what is no matter of the order of units. -/
theorem derives (h : t.Rearranged σ t') (name goal : String) :
    t'.baseIndex.derives name goal = t.baseIndex.derives name goal := by
  rw [Bool.eq_iff_iff, BaseIndex.derives_iff, BaseIndex.derives_iff, lists_baseIndex,
    lists_baseIndex, h.hasBase]

/-- Hooks are recognised and named by the same rule in any order of units. -/
theorem hookRule (h : t.Rearranged σ t') (options : HookOptions) :
    options.rule t'.baseIndex = options.rule t.baseIndex := by
  have eventType : options.isEventType t'.baseIndex = options.isEventType t.baseIndex := by
    funext type
    simp only [HookOptions.isEventType, h.derives]
  have signature : options.isHookSignature t'.baseIndex = options.isHookSignature t.baseIndex := by
    funext s
    simp only [HookOptions.isHookSignature, eventType]
  have qualifies : options.qualifies t'.baseIndex = options.qualifies t.baseIndex := by
    funext method
    simp only [HookOptions.qualifies, signature]
  rw [HookOptions.rule, HookOptions.rule, qualifies]

end Rearranged

end Tree

end Bindery
