import Bindery.Text.CodePoint
import Bindery.Value.Access

/-!
# Values as members of sets

Labels and names that a configuration lists form a set. Members must be simple values; numbers are
the same member when their values agree, whatever form they are written in, and truth values count
as the numbers 0 and 1. Only numbers with numbers and texts with texts can be put in order. Lists
and mappings are alike when their parts are, and mappings also if their entries come in another
order.
-/

namespace Bindery.Value

/-- A number that a value stands for. -/
inductive Magnitude where
  /-- A whole number. -/
  | whole (n : Int)
  /-- A binary64 number. -/
  | fractional (x : Binary64)

/-- Exact comparison of numbers. -/
def Magnitude.compare : Magnitude → Magnitude → Ordering
  | whole m, whole n => Ord.compare m n
  | fractional x, whole n => x.compareInt n
  | whole m, fractional y => (y.compareInt m).swap
  | fractional x, fractional y => x.compareValue y

/-- The number a value stands for. -/
def magnitude? : Value → Option Magnitude
  | .bool b => some (.whole (if b then 1 else 0))
  | .int n => some (.whole n)
  | .float x => some (.fractional x)
  | _ => none

/-- The order of two values, if they have one. -/
def order? (a b : Value) : Option Ordering :=
  match a, b with
  | .text s, .text t =>
    some (if Text.precedes s t then .lt else if s = t then .eq else .gt)
  | a, b =>
    match a.magnitude?, b.magnitude? with
    | some m, some n => some (m.compare n)
    | _, _ => none

/-- Whether two simple values are the same member of a set. -/
def sameMember (a b : Value) : Bool := a == b || a.order? b == some .eq

mutual

/-- Whether two values are alike. -/
def alike (a b : Value) : Bool :=
  match a, b with
  | .list xs, .list ys => alikeItems xs ys
  | .mapping es, .mapping fs => es.length == fs.length && alikeEntries es fs
  | a, b => a.sameMember b
termination_by structural a

/-- Whether the items of two lists are alike, one by one. -/
def alikeItems (xs ys : List Value) : Bool :=
  match xs, ys with
  | [], [] => true
  | x :: xs, y :: ys => alike x y && alikeItems xs ys
  | _, _ => false
termination_by structural xs

/-- Whether every entry of the first mapping has one like it under its key in the second. -/
def alikeEntries (es fs : List (String × Value)) : Bool :=
  match es with
  | [] => true
  | (k, v) :: es =>
    (match fs.lookup k with
      | some w => alike v w
      | none => false) && alikeEntries es fs
termination_by structural es

end

/-- Texts are alike only if they are the same. -/
@[simp] theorem alike_text (s t : String) : (Value.text s).alike (.text t) = (s == t) := by
  by_cases h : s = t
  · simp [alike, sameMember, h]
  · have hne : (Value.text s == .text t) = false :=
      beq_eq_false_iff_ne.2 fun e => h (by injection e)
    by_cases hp : Text.precedes s t <;> simp [alike, sameMember, order?, h, hp, hne]

example : (Value.list [.bool true]).alike (.list [.int 1]) = true ∧
    (Value.mapping [("a", .int 1), ("b", .null)]).alike (.mapping [("b", .null), ("a", .int 1)])
      = true := by
  decide +kernel

/-- Whether a value can be a member of a set. -/
def isSimple : Value → Bool
  | .list _ => false
  | .mapping _ => false
  | _ => true

/-- Drops every value that is the same member as an earlier one. -/
def distinct (vs : List Value) : List Value :=
  vs.foldl (fun kept v => if kept.any (sameMember v) then kept else kept ++ [v]) []

/-- The set of the elements of a value. -/
def members (v : Value) : Except Fault (List Value) := do
  let elements ← v.elements
  if elements.all isSimple then .ok (distinct elements) else .error .wrongKind

/-- Whether a value is a member of a set. -/
def isMember (v : Value) (set : List Value) : Except Fault Bool :=
  if v.isSimple then .ok (set.any (sameMember v)) else .error .wrongKind

/-- Whether the first of two values does not come after the second. -/
def notAfter (a b : Value) : Bool := a.order? b != some .gt

/-- The members of two lists in ascending order, each once. -/
def sortedUnion (xs ys : List Value) : Except Fault (List Value) :=
  let all := xs ++ ys
  if all.all isSimple then
    let kept := distinct all
    if kept.length ≤ 1 ∨ kept.all fun a => kept.all fun b => (a.order? b).isSome then
      .ok (kept.mergeSort notAfter)
    else .error .wrongKind
  else .error .wrongKind

end Bindery.Value
