import Bindery.Text.Cut

/-!
# Paths as they are written

Whether a header belongs to a module is decided by its path as it is written: repeated separators
and single dots mean nothing, two dots are a component like any other, and nothing is looked up on
disk. A path with exactly two leading separators has a root of its own. Where a path leads on a disk
is said in `Bindery.Disk`.
-/

namespace Bindery

/-- A path as its root and its components. -/
structure WrittenPath where
  /-- How many separators the root has: none for a relative path. -/
  root : Nat
  /-- The components below the root. -/
  components : List String
  deriving DecidableEq, Repr

namespace WrittenPath

/-- The separator. -/
def separator : Char := '/'

/-- The root of a path: two leading separators are kept apart, more count as one. -/
def rootOf (cs : List Char) : Nat :=
  let leading := (cs.takeWhile (· == separator)).length
  if leading = 2 then 2 else min leading 1

/-- Reads a path. -/
def ofString (path : String) : WrittenPath where
  root := rootOf path.toList
  components :=
    ((Text.cut (· == separator) path.toList).filter fun part => part ≠ [] ∧ part ≠ ['.']).map
      String.ofList

/-- The directory of a path; a root and the empty path are their own directory. -/
def parent (p : WrittenPath) : WrittenPath := { p with components := p.components.dropLast }

/-- The last component, empty if there is none. -/
def fileName (p : WrittenPath) : String := p.components.getLast?.getD ""

/-- The path one component further down; a component that is absolute replaces the path. -/
def append (p q : WrittenPath) : WrittenPath :=
  if q.root = 0 then { p with components := p.components ++ q.components } else q

/-- The path in writing; the empty path is a dot. -/
def render (p : WrittenPath) : String :=
  let body := "/".intercalate p.components
  if p.root = 0 ∧ p.components.isEmpty then "."
  else String.ofList (List.replicate p.root separator) ++ body

example : (ofString "/a//b/./c/").render = "/a/b/c" := by decide

example : ofString "//x" ≠ ofString "///x" ∧ ofString "///x" = ofString "/x" := by decide

example : (ofString "a/../b.h").parent = ofString "a/.." := by decide

/-- Joins two paths as they are written: an absolute second path replaces the first, and exactly
one separator stands between them unless the first is empty. -/
def join (first second : String) : String :=
  if second.toList.head? = some separator then second
  else if first.isEmpty ∨ first.toList.getLast? = some separator then first ++ second
  else first ++ "/" ++ second

end WrittenPath

end Bindery
