import Bindery.Declaration.Site
import Bindery.Fault

/-!
# Private names

A library marks its implementation details by a reserved beginning or ending of their names. Pruning
suppresses the outermost private declarations below a context and does not look further into them.
-/

namespace Bindery

/-- A reserved beginning or ending, as a configuration gives it. -/
inductive Mark where
  /-- Nothing is reserved. -/
  | unset
  /-- The reserved text. -/
  | reserved (affix : String)
  /-- Something that is no text: no name can be compared with it. -/
  | unusable
  deriving DecidableEq, Repr

/-- The mark a configured value stands for. -/
def Mark.ofValue (v : Value) : Mark :=
  if !v.isGiven then .unset
  else match v with
    | .text s => .reserved s
    | _ => .unusable

/-- Whether a name bears a mark at one of its ends. Only texts have ends: anything else lacks the
`part` that compares them. -/
def Mark.isBorne (mark : Mark) (part : String) (bears : List Char → List Char → Bool)
    (name : Value) : Except Fault Bool :=
  match mark, name with
  | .unset, _ => .ok false
  | .reserved affix, .text s => .ok (bears affix.toList s.toList)
  | .unusable, .text _ => .error .wrongKind
  | _, v => .error (.noSuchPart v.kindWord part)

/-- The marks of private names. -/
structure PrivateMarks where
  /-- The reserved beginning. -/
  leading : Mark := .reserved "Private"
  /-- The reserved ending. -/
  trailing : Mark := .reserved "Private"
  deriving DecidableEq, Repr

namespace PrivateMarks

/-- Whether a name is private, or why that cannot be said. A name that is not given never is; the
leading mark is looked at first. -/
def judge (m : PrivateMarks) (name : Value) : Except Fault Bool :=
  if name.isGiven then
    match m.leading.isBorne "startswith" List.isPrefixOf name with
    | .ok false => m.trailing.isBorne "endswith" List.isSuffixOf name
    | verdict => verdict
  else .ok false

/-- Whether a name is private. -/
def isPrivate (m : PrivateMarks) (name : Value) : Bool :=
  match m.judge name with
  | .ok verdict => verdict
  | .error _ => false

end PrivateMarks

/-- What pruning a context leads to. -/
structure Pruning where
  /-- The context afterwards. -/
  context : Decl
  /-- How many declarations were suppressed. -/
  ignored : Nat
  /-- Why pruning stopped early, if it did. -/
  fault : Option Fault

namespace Decl

/-- Whether pruning reaches the declaration at a site below its context: the context itself is not
judged, and nothing inside a private declaration is. -/
def isReached (m : PrivateMarks) (s : Site) : Bool :=
  !s.scope.isEmpty && !s.scope.dropLast.any fun owner => m.isPrivate owner.name

/-- Whether pruning suppresses the declaration at a site below its context. -/
def isPruned (m : PrivateMarks) (s : Site) (l : Label) : Bool :=
  isReached m s && m.isPrivate l.name

/-- Where the walk below a context stops: at the first declaration whose name cannot be judged. -/
def pruningStop? (m : PrivateMarks) (context : Decl) : Option Stop :=
  Stop.first? (fun x => if isReached m x.site then Fault.of? (m.judge x.label.name) else none)
    (context.survey Site.top)

/-- Suppresses the outermost private declarations below a context, up to the first one that cannot
be judged. -/
def prune (m : PrivateMarks) (context : Decl) : Pruning :=
  let stop := pruningStop? m context
  let isTouched (s : Site) (l : Label) : Bool := isPruned m s l && s.isBefore stop
  { context := context.relabel (fun s l => if isTouched s l then l.suppress else l) Site.top
    ignored := (context.survey Site.top).countP fun x => isTouched x.site x.label
    fault := stop.map Stop.fault }

end Decl

end Bindery
