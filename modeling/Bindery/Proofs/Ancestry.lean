import Bindery.Proofs.Heirs

/-!
# Ancestry

Whether a class inherits from another is found out by a search that takes one pending name after the
other and makes the bases of a name pending when it comes up for the first time. Nothing bounds this
search from outside, and yet it ends, after at most as many names as there are bases listed, whatever
cycles there are. Main statement: `derives_reachable`.
-/

namespace Bindery

namespace BaseIndex

/-- How the search for a name comes to its answer, in some number of steps, when some names are
pending, the next one first, and some were followed. Every step takes a pending name. -/
inductive Answers (index : BaseIndex) (goal : String) :
    Nat → List String → List String → Bool → Prop
  /-- Nothing is pending any more. -/
  | exhausted (seen : List String) : Answers index goal 0 [] seen false
  /-- The name is found. -/
  | found (pending seen : List String) : Answers index goal 1 (goal :: pending) seen true
  /-- A name that was followed before is passed over. -/
  | passOver {steps : Nat} {name : String} {pending seen : List String} {answer : Bool}
    (other : name ≠ goal) (known : name ∈ seen) (rest : Answers index goal steps pending seen answer) :
    Answers index goal (steps + 1) (name :: pending) seen answer
  /-- The bases of a name become pending, the last one first. -/
  | follow {steps : Nat} {name : String} {pending seen : List String} {answer : Bool}
    (other : name ≠ goal) (new : name ∉ seen)
    (rest : Answers index goal steps ((index.basesOf name).reverse ++ pending) (name :: seen) answer) :
    Answers index goal (steps + 1) (name :: pending) seen answer

variable {index : BaseIndex} {goal : String}

/-- The search comes to one answer only, in one number of steps. -/
theorem Answers.unique {steps steps' : Nat} {pending seen : List String} {answer answer' : Bool}
    (h : index.Answers goal steps pending seen answer)
    (h' : index.Answers goal steps' pending seen answer') : steps = steps' ∧ answer = answer' := by
  induction h generalizing steps' with
  | exhausted seen =>
    cases h'
    exact ⟨rfl, rfl⟩
  | found pending seen =>
    cases h' with
    | found => exact ⟨rfl, rfl⟩
    | passOver other | follow other => exact absurd rfl other
  | passOver other known _ ih =>
    cases h' with
    | found => exact absurd rfl other
    | passOver _ _ rest =>
      obtain ⟨rfl, rfl⟩ := ih rest
      exact ⟨rfl, rfl⟩
    | follow _ new => exact absurd known new
  | follow other new _ ih =>
    cases h' with
    | found => exact absurd rfl other
    | passOver _ known => exact absurd known new
    | follow _ _ rest =>
      obtain ⟨rfl, rfl⟩ := ih rest
      exact ⟨rfl, rfl⟩

/-- With enough fuel, the search comes to its answer: every step uses up a pending name, and a name
leaves its bases to be taken only once. -/
theorem exists_answers_search (index : BaseIndex) (goal : String) (fuel : Nat) :
    ∀ pending seen : List String, pending.length + index.edgesLeft seen < fuel →
      ∃ steps ≤ pending.length + index.edgesLeft seen,
        index.Answers goal steps pending seen (index.search goal fuel pending seen) := by
  induction fuel with
  | zero => exact fun _ _ enough => absurd enough (Nat.not_lt_zero _)
  | succ fuel ih =>
    intro pending seen enough
    cases pending with
    | nil => exact ⟨0, Nat.zero_le _, .exhausted seen⟩
    | cons name pending =>
      rw [List.length_cons] at enough ⊢
      rw [search]
      split
      · next found =>
        subst found
        exact ⟨1, by omega, .found pending seen⟩
      · next other =>
        split
        · next known =>
          obtain ⟨steps, le, rest⟩ := ih pending seen (by omega)
          exact ⟨steps + 1, by omega, .passOver other known rest⟩
        · next new =>
          have left := length_basesOf_add_edgesLeft new index
          have length : ((index.basesOf name).reverse ++ pending).length =
              (index.basesOf name).length + pending.length := by simp
          obtain ⟨steps, le, rest⟩ := ih ((index.basesOf name).reverse ++ pending)
            (name :: seen) (by omega)
          exact ⟨steps + 1, by omega, .follow other new rest⟩

/-- The search from a single name ends, and tells whether that name derives from the other. -/
theorem exists_answers_derives (index : BaseIndex) (name goal : String) :
    ∃ steps ≤ index.edgeCount + 1, index.Answers goal steps [name] [] (index.derives name goal) := by
  have enough : [name].length + index.edgesLeft [] < index.edgeCount + 2 := by
    rw [edgesLeft_nil, List.length_singleton]
    omega
  obtain ⟨steps, le, answers⟩ := exists_answers_search index goal _ _ _ enough
  rw [edgesLeft_nil, List.length_singleton] at le
  exact ⟨steps, by omega, answers⟩

end BaseIndex

/-- The search along any index ends, after at most one step more than there are bases listed, with
one answer: whether the other name can be reached from the first by any number of bases, none
included. The index of a tree lists under a name the bases of all its classes of that name, be they
forward declarations or repeated definitions, in order; so in a tree it is found out what can be
reached by the bases of all declarations of a class together. -/
theorem derives_reachable :
    (∀ (index : BaseIndex) (name goal : String),
      (∃ steps ≤ index.edgeCount + 1,
        index.Answers goal steps [name] [] (index.derives name goal)) ∧
      (∀ steps answer, index.Answers goal steps [name] [] answer →
        answer = index.derives name goal) ∧
      (index.derives name goal = true ↔ Relation.ReflTransGen index.Lists name goal)) ∧
    ∀ t : Tree, t.hasNamedClasses = true → ∃ index, t.bases = .ok index ∧
      ∀ name : String,
        (index.lookup name = if t.findClasses name = [] then none
          else some ((t.findClasses name).flatMap Located.bases)) ∧
        ∀ goal, index.derives name goal = true ↔ Relation.ReflTransGen t.HasBase name goal := by
  constructor
  · intro index name goal
    obtain ⟨steps, le, answers⟩ := index.exists_answers_derives name goal
    exact ⟨⟨steps, le, answers⟩, fun _ _ other => (answers.unique other).2.symm,
      index.derives_iff name goal⟩
  · intro t named
    refine ⟨t.baseIndex, if_pos named, fun name => ⟨t.lookup_baseIndex name, fun goal => ?_⟩⟩
    rw [BaseIndex.derives_iff, t.lists_baseIndex]

/-- The label of a class with some bases. -/
def Label.ofClass (name : String) (bases : List String) (isIncomplete : Bool) : Label where
  name := .text name
  headerName := .text name
  form := .classType ⟨bases, isIncomplete, false⟩

/-- Two headers with classes of events, in which one is declared ahead and defined twice, and the
bases lead back to it. -/
def Tree.mouseTree : Tree where
  units := [
    .node { name := .text "qevent.h", headerName := .text "qevent.h",
            form := .unit "include/QtGui/qevent.h" } [
      .node (.ofClass "QMouseEvent" [] true) [],
      .node (.ofClass "QInputEvent" ["QEvent"] false) []],
    .node { name := .text "qmouse.h", headerName := .text "qmouse.h",
            form := .unit "include/QtGui/qmouse.h" } [
      .node (.ofClass "QMouseEvent" ["QInputEvent"] false) [],
      .node (.ofClass "QEvent" ["QMouseEvent"] false) [],
      .node (.ofClass "QMouseEvent" ["QPointer"] false) []]]

/-- In the sample, the bases of all three declarations of a class are listed under its name. -/
theorem derives_reachable_mouse :
    Tree.mouseTree.hasNamedClasses = true ∧ ∃ index, Tree.mouseTree.bases = .ok index ∧
      index.lookup "QMouseEvent" = some ["QInputEvent", "QPointer"] ∧
      index.lookup "QPointer" = none ∧
      (index.derives "QMouseEvent" "QPointer" = true ↔
        Relation.ReflTransGen Tree.mouseTree.HasBase "QMouseEvent" "QPointer") := by
  have named : Tree.mouseTree.hasNamedClasses = true := by decide +kernel
  obtain ⟨index, bases, names⟩ := derives_reachable.2 Tree.mouseTree named
  refine ⟨named, index, bases, (names "QMouseEvent").1.trans ?_, (names "QPointer").1.trans ?_,
    (names "QMouseEvent").2 "QPointer"⟩
  · decide +kernel
  · decide +kernel

end Bindery
