import Mathlib.Logic.Relation
import Bindery.Proofs.Spelling
import Bindery.Tree
import Bindery.WrittenPath

/-!
# Directories as they are written

Where a path is lengthened by single dots or by separators that are repeated, it stays the same
path, provided that something stands before: leading separators make a root. A name behind a
separator is one component more.
-/

namespace Bindery

namespace WrittenPath

/-! ## Components -/

/-- The components that are written in a text. -/
def componentsOf (cs : List Char) : List String :=
  ((Text.cut (· == separator) cs).filter fun part => part ≠ [] ∧ part ≠ ['.']).map String.ofList

/-- The components of a path are those written in it. -/
theorem components_ofString (path : String) :
    (ofString path).components = componentsOf path.toList := rfl

/-- Around a separator the components are written one after the other. -/
@[simp] theorem componentsOf_append_cons (front back : List Char) :
    componentsOf (front ++ separator :: back) = componentsOf front ++ componentsOf back := by
  have pieces : Text.cut (· == separator) (front ++ separator :: back) =
      Text.cut (· == separator) front ++ Text.cut (· == separator) back :=
    Text.cut_append_cons (· == separator) (beq_self_eq_true separator) front back
  rw [componentsOf, pieces, List.filter_append, List.map_append]
  rfl

/-- Nothing and a dot are no components. -/
theorem componentsOf_pad : ∀ pad ∈ [[], ['.']], componentsOf pad = [] := by decide

/-- A name that can stand between separators as a component of its own. -/
structure IsComponent (name : String) : Prop where
  /-- There is something. -/
  nonempty : name ≠ ""
  /-- It is not just a dot. -/
  ne_dot : name ≠ "."
  /-- There is no separator in it. -/
  unseparated : separator ∉ name.toList

/-- A name is its own component. -/
theorem IsComponent.componentsOf_eq {name : String} (h : IsComponent name) :
    componentsOf name.toList = [name] := by
  have unseparated : ∀ c ∈ name.toList, (c == separator) = false := fun c hc =>
    beq_eq_false_iff_ne.2 fun same => h.unseparated (same ▸ hc)
  have uncut : Text.cut (· == separator) name.toList = [name.toList] := by
    simpa [Text.cut] using Text.cut_append unseparated []
  have nonempty : name.toList ≠ [] := by
    simpa using h.nonempty
  have ne_dot : name.toList ≠ ['.'] := fun dot =>
    h.ne_dot (String.toList_injective dot)
  simp [componentsOf, uncut, nonempty, ne_dot]

/-! ## Roots -/

/-- Something in a text is not a separator. -/
def HasStart (cs : List Char) : Prop := ∃ c ∈ cs, c ≠ separator

/-- What is written behind the first component makes no difference to the root. -/
theorem rootOf_append {front : List Char} (start : HasStart front) (back : List Char) :
    rootOf (front ++ back) = rootOf front := by
  obtain ⟨c, hc, hne⟩ := start
  have stops : (front.takeWhile (· == separator)).length ≠ front.length := by
    intro all
    have same : front.takeWhile (· == separator) = front :=
      (List.takeWhile_prefix _).eq_of_length all
    have all : front.all (· == separator) = true := by rw [← same, List.all_takeWhile]
    exact hne (eq_of_beq (List.all_eq_true.1 all c hc))
  rw [rootOf, rootOf, List.takeWhile_append, if_neg stops]

/-! ## Paths written with more than is needed -/

/-- One more separator is written behind the first component, with or without a dot. -/
inductive Padding : List Char → List Char → Prop
  /-- It stands where there is a separator. -/
  | between (front back pad : List Char) (start : HasStart front) (empty : pad ∈ [[], ['.']]) :
      Padding (front ++ separator :: back) (front ++ separator :: (pad ++ separator :: back))
  /-- It stands at the end. -/
  | behind (front pad : List Char) (start : HasStart front) (empty : pad ∈ [[], ['.']]) :
      Padding front (front ++ separator :: pad)

/-- The second text is the first, with dots and separators repeated behind the first component. -/
def IsPadded (path padded : String) : Prop :=
  Relation.ReflTransGen Padding path.toList padded.toList

/-- What is padded is the same path. -/
theorem IsPadded.ofString_eq {path padded : String} (h : IsPadded path padded) :
    ofString padded = ofString path := by
  suffices same : ∀ cs, Relation.ReflTransGen Padding path.toList cs →
      rootOf cs = rootOf path.toList ∧ componentsOf cs = componentsOf path.toList by
    exact congrArg₂ WrittenPath.mk (same _ h).1 (same _ h).2
  intro cs steps
  induction steps with
  | refl => exact ⟨rfl, rfl⟩
  | tail _ step ih =>
    rw [← ih.1, ← ih.2]
    cases step with
    | between _ _ _ start empty =>
      exact ⟨by rw [rootOf_append start, rootOf_append start], by simp [componentsOf_pad _ empty]⟩
    | behind _ _ start empty =>
      exact ⟨rootOf_append start _, by simp [componentsOf_pad _ empty]⟩

/-- Something is written where a text can be padded. -/
theorem Padding.ne_nil {cs cs' : List Char} (h : Padding cs cs') : cs ≠ [] := by
  cases h with
  | between front back pad start empty => simp
  | behind _ pad start empty =>
    obtain ⟨c, hc, -⟩ := start
    exact List.ne_nil_of_mem hc

/-- What is padded and is not the path itself has a separator, and the path was not empty. -/
theorem IsPadded.separated_of_ne {path padded : String} (h : IsPadded path padded)
    (other : padded ≠ path) : separator ∈ padded.toList ∧ path ≠ "" := by
  constructor
  · rcases Relation.ReflTransGen.cases_tail h with same | ⟨_, -, step⟩
    · exact absurd (String.toList_injective same) other
    · generalize padded.toList = cs at step
      cases step <;> simp
  · rcases Relation.ReflTransGen.cases_head h with same | ⟨_, step, -⟩
    · exact absurd (String.toList_injective same.symm) other
    · rintro rfl
      exact step.ne_nil rfl

/-- A path with a separator in it is valid: the marker of a missing file has none. -/
theorem isValidPath_of_mem {path : String} (h : separator ∈ path.toList) :
    Tree.isValidPath path = true := by
  have nonempty : path ≠ "" := by
    rintro rfl
    simp at h
  have marked : path ≠ Tree.invalidPath := by
    rintro rfl
    revert h
    decide
  simp [Tree.isValidPath, nonempty, marked]

/-- Padding makes no difference to whether a path is valid, but for the marker of a missing file:
with anything behind it, that is a path like any other. -/
theorem IsPadded.isValidPath_eq_iff {path padded : String} (h : IsPadded path padded) :
    Tree.isValidPath padded = Tree.isValidPath path ↔
      (path = Tree.invalidPath → padded = path) := by
  by_cases same : padded = path
  · simp [same]
  · obtain ⟨separated, nonempty⟩ := h.separated_of_ne same
    rw [isValidPath_of_mem separated]
    simp [Tree.isValidPath, nonempty, same]

/-! ## Headers in a directory -/

/-- A path is that of something directly in a directory, as both are written. -/
def IsIn (path directory : String) : Prop := (ofString path).parent = ofString directory

instance (path directory : String) : Decidable (IsIn path directory) :=
  inferInstanceAs (Decidable (_ = _))

/-- Where a path is padded, and where the directory is, it is in the directory just if it was. -/
theorem isIn_padded_iff {path padded directory padded' : String} (hp : IsPadded path padded)
    (hd : IsPadded directory padded') : IsIn padded padded' ↔ IsIn path directory := by
  rw [IsIn, IsIn, hp.ofString_eq, hd.ofString_eq]

variable {directory name between : String}

/-- The directory of a path that ends in a name is what is written before. -/
theorem parent_ofString_append (start : HasStart directory.toList) (h : IsComponent name) :
    (ofString (directory ++ "/" ++ name)).parent = ofString directory := by
  have written : (directory ++ "/" ++ name).toList =
      directory.toList ++ separator :: name.toList := by
    simp [separator]
  have root : rootOf (directory ++ "/" ++ name).toList = rootOf directory.toList := by
    rw [written, rootOf_append start]
  rw [parent, components_ofString, written, componentsOf_append_cons, h.componentsOf_eq,
    List.dropLast_concat]
  exact congrArg₂ WrittenPath.mk root rfl

/-- A name behind a directory is directly in it. -/
theorem isIn_of_directly (start : HasStart directory.toList) (h : IsComponent name) :
    IsIn (directory ++ "/" ++ name) directory := parent_ofString_append start h

/-- A name behind a directory and at least one component more is not directly in it. -/
theorem not_isIn_of_deeper (start : HasStart directory.toList) (h : IsComponent name)
    (deeper : (ofString between).components ≠ []) :
    ¬ IsIn (directory ++ "/" ++ between ++ "/" ++ name) directory := by
  have written : (directory ++ "/" ++ between).toList =
      directory.toList ++ separator :: between.toList := by
    simp [separator]
  have start' : HasStart (directory ++ "/" ++ between).toList := by
    obtain ⟨c, hc, hne⟩ := start
    exact ⟨c, by rw [written]; exact List.mem_append_left _ hc, hne⟩
  rw [IsIn, parent_ofString_append start' h]
  intro same
  have components := congrArg WrittenPath.components same
  rw [components_ofString, written, componentsOf_append_cons, ← components_ofString,
    ← components_ofString] at components
  exact deeper (List.append_right_eq_self.1 components)

end WrittenPath

end Bindery
