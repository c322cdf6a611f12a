import Bindery.Fault
import Bindery.Template.Note
import Bindery.Text.Quoted

/-!
# Parts

What a field of a template can lead to. It starts at the text of a setting and goes on by position
or by name. Every part belongs to a class, and has under a name what its class or one above it
defines: an attribute is looked at right away, and a routine is handed out for the part that it was
asked of. A class has its own definitions as well.
-/

namespace Bindery.Template

open Text

/-- Something that a class defines. -/
structure Routine where
  /-- The class that defines it. -/
  definer : PartClass
  /-- Its name. -/
  name : String
  /-- What it is. -/
  kind : MemberKind
  deriving DecidableEq, Repr

namespace Routine

/-- The class of a routine as its definer has it. -/
def ofClass (r : Routine) : PartClass :=
  match r.kind with
  | .operator => .operator
  | .method => .method
  | .classMethod => .classMethod
  | .staticMethod => .staticMethod
  | .derived => .derived
  | .stored => .stored
  | _ => .ownMethod

/-- What is written about a routine. -/
def note? (r : Routine) : Option Note := r.definer.note? r.kind r.name

/-- A routine of a part of some class, in writing. -/
def displayOwn (r : Routine) (holder : PartClass) : String :=
  if r.kind = .operator then
    "<method-wrapper '" ++ r.name ++ "' of " ++ holder.fullName ++ " object>"
  else "<built-in method " ++ r.name ++ " of " ++ holder.fullName ++ " object>"

/-- A routine in writing. -/
def display (r : Routine) : String :=
  let defined (word : String) : String :=
    "<" ++ word ++ " '" ++ r.name ++ "' of '" ++ r.definer.fullName ++ "' objects>"
  match r.kind with
  | .operator => defined "slot wrapper"
  | .derived => defined "attribute"
  | .stored => defined "member"
  | .staticMethod => "<staticmethod(" ++ r.displayOwn .classes ++ ")>"
  | _ => defined "method"

end Routine

/-- What a field of a template can lead to. -/
inductive Part where
  /-- A text. -/
  | text (cs : List Char)
  /-- What is absent. -/
  | nothing
  /-- A truth value. -/
  | truth (b : Bool)
  /-- A whole number. -/
  | number (n : Int)
  /-- A class. -/
  | ofClass (c : PartClass)
  /-- A row of parts. -/
  | row (items : List Part)
  /-- A routine as its class has it. -/
  | routine (r : Routine)
  /-- A routine of a certain part. -/
  | own (r : Routine) (holder : Part)
  /-- All that a class defines. -/
  | directory (c : PartClass)
  /-- Entries of which there are none. -/
  | noEntries
  /-- A class for certain members. -/
  | special (c : PartClass) (argument : Part)

namespace Part

/-- A text, or nothing. -/
def ofText? : Option String → Part
  | some s => .text s.toList
  | none => .nothing

/-- A text that may be empty because nothing is written. -/
def ofWritten (s : Option String) : Part := ofText? (s.filter (!·.isEmpty))

/-- The class of a part. -/
def classOf : Part → PartClass
  | .text _ => .text
  | .nothing => .nothing
  | .truth _ => .truth
  | .number _ => .number
  | .ofClass _ => .classes
  | .row _ => .row
  | .routine r => r.ofClass
  | .own r _ => if r.kind = .operator then .ownOperator else .ownMethod
  | .directory _ => .directory
  | .noEntries => .dictionary
  | .special _ _ => .special

/-! ## Writing -/

/-- A class in writing. -/
def displayClass (c : PartClass) : String := "<class '" ++ c.fullName ++ "'>"

/-- An entry of a directory in writing. -/
def displayEntry (c : PartClass) (entry : String × MemberKind) : List Char :=
  let value := match entry.2 with
    | .absent => "None".toList
    | .description => (c.description?.map fun s => quoted s.toList).getD "None".toList
    | .maker => (Routine.displayOwn ⟨c, entry.1, .maker⟩ .classes).toList
    | kind => (Routine.display ⟨c, entry.1, kind⟩).toList
  quoted entry.1.toList ++ ':' :: ' ' :: value

/-- A directory in writing. -/
def displayDirectory (c : PartClass) : List Char :=
  '\x7b' :: ([',', ' '].intercalate (c.members.map (displayEntry c)) ++ ['\x7d'])

mutual

/-- A part in writing, with texts in their quoted form if asked for. -/
def write (p : Part) (quotes : Bool) : List Char :=
  match p with
  | .text cs => if quotes then quoted cs else cs
  | .nothing => "None".toList
  | .truth b => (if b then "True" else "False").toList
  | .number n => (toString n).toList
  | .ofClass c => (displayClass c).toList
  | .row items =>
    match writeItems items with
    | [item] => '(' :: (item ++ [',', ')'])
    | written => '(' :: ([',', ' '].intercalate written ++ [')'])
  | .routine r => r.display.toList
  | .own r holder => (r.displayOwn holder.classOf).toList
  | .directory c =>
    if quotes then "mappingproxy(".toList ++ displayDirectory c ++ [')'] else displayDirectory c
  | .noEntries => ['\x7b', '\x7d']
  | .special c argument => c.name.toList ++ '[' :: (write argument true ++ [']'])
termination_by structural p

/-- The items of a row in writing. -/
def writeItems (ps : List Part) : List (List Char) :=
  match ps with
  | [] => []
  | p :: ps => write p true :: writeItems ps
termination_by structural ps

end

/-- A part in writing. -/
def display (p : Part) : List Char := p.write false

/-- A part in writing, a text in its quoted form. -/
def displayQuoted (p : Part) : List Char := p.write true

/-! ## What parts have -/

/-- What a class defines under a name, as it defines it. -/
def defined? (c : PartClass) (name : String) : Option Part :=
  match c.member? name with
  | none => none
  | some .absent => some .nothing
  | some .description => some (ofText? c.description?)
  | some .maker => some (.own ⟨c, name, .maker⟩ (.ofClass c))
  | some kind => some (.routine ⟨c, name, kind⟩)

/-- What a class or the nearest one above it defines under a name. -/
def inherited? (c : PartClass) (name : String) : Option Part :=
  c.lineage.findSome? fun d => defined? d name

/-- An attribute of a class. -/
def classAttribute? (c : PartClass) : String → Option Part
  | "__name__" | "__qualname__" => some (.text c.name.toList)
  | "__module__" => some (.text c.home.toList)
  | "__doc__" =>
    match c.description? with
    | some s => some (.text s.toList)
    | none => some ((defined? c "__doc__").getD .nothing)
  | "__text_signature__" => some (ofText? c.making?)
  | "__mro__" => some (.row (c.lineage.map .ofClass))
  | "__bases__" => some (.row (c.parent?.toList.map .ofClass))
  | "__base__" => some ((c.parent?.map Part.ofClass).getD .nothing)
  | "__dict__" => some (.directory c)
  | "__basicsize__" => some (.number c.room.basic)
  | "__itemsize__" => some (.number c.room.item)
  | "__dictoffset__" => some (.number c.room.entries)
  | "__weakrefoffset__" => some (.number c.room.watchers)
  | "__flags__" => some (.number c.room.marks)
  | _ => none

/-- An attribute that every routine has. -/
def routineAttribute? (r : Routine) (holder : PartClass) : String → Option Part
  | "__name__" => some (.text r.name.toList)
  | "__qualname__" => some (.text (holder.name ++ "." ++ r.name).toList)
  | "__objclass__" => some (.ofClass r.definer)
  | "__doc__" => some (ofWritten (r.note?.map Note.text))
  | "__text_signature__" => some (ofWritten (r.note?.map Note.call))
  | _ => none

/-- The class that a routine of a certain part goes by: of an operator its definer, and otherwise
the class of the part, or the part if that is a class itself. -/
def holderClass (r : Routine) (holder : Part) : PartClass :=
  if r.kind = .operator then r.definer
  else
    match holder with
    | .ofClass c => c
    | p => p.classOf

/-- An attribute of a whole number. -/
def numberAttribute? (n : Int) : String → Option Part
  | "real" | "numerator" => some (.number n)
  | "imag" => some (.number 0)
  | "denominator" => some (.number 1)
  | _ => none

/-- An attribute of a routine of a certain part. What belongs to no one does not name its holder. -/
def ownAttribute? (r : Routine) (holder : Part) : String → Option Part
  | "__self__" => some (if r.kind = .staticMethod then .nothing else holder)
  | "__module__" => some .nothing
  | name => routineAttribute? r (holderClass r holder) name

/-- An attribute of a routine as its class has it. -/
def definedAttribute? (r : Routine) : String → Option Part
  | "__func__" | "__wrapped__" => some (.own r (.ofClass r.definer))
  | "__isabstractmethod__" => some (.truth false)
  | "__dict__" => some .noEntries
  | name => routineAttribute? r r.definer name

/-- An attribute of a class for certain members. -/
def specialAttribute? (c : PartClass) (argument : Part) : String → Option Part
  | "__origin__" => some (.ofClass c)
  | "__args__" => some (.row [argument])
  | "__parameters__" => some (.row [])
  | "__unpacked__" => some (.truth false)
  | "__typing_unpacked_tuple_args__" => some .nothing
  | _ => none

/-- An attribute besides the class of a part, if the part tells it. -/
def toldAttribute? (p : Part) (name : String) : Option Part :=
  match p with
  | .ofClass c => classAttribute? c name
  | .own r holder => ownAttribute? r holder name
  | .routine r => definedAttribute? r name
  | .number n => numberAttribute? n name
  | .truth b => numberAttribute? (if b then 1 else 0) name
  | .special c argument => specialAttribute? c argument name
  | _ => none

/-- An attribute of a part, if the part tells it. -/
def attribute? (p : Part) (name : String) : Option Part :=
  if name = "__class__" then some (.ofClass p.classOf) else p.toldAttribute? name

/-- What was found, for the part that it was asked of. -/
def handOut (found asked : Part) : Part :=
  match found with
  | .routine r =>
    match r.kind with
    | .classMethod => .own r (.ofClass asked.classOf)
    | .staticMethod => .own r (.ofClass r.definer)
    | _ => .own r asked
  | other => other

/-- Whether what was found is an attribute. -/
def isAttribute : Part → Bool
  | .routine r => r.kind == .derived || r.kind == .stored
  | _ => false

/-- What a class itself defines under a name, as it hands it out. -/
def ownNamed? (c : PartClass) (name : String) : Option Part :=
  (inherited? c name).map fun found =>
    match found with
    | .routine r =>
      match r.kind with
      | .classMethod => .own r (.ofClass c)
      | .staticMethod => .own r (.ofClass r.definer)
      | _ => found
    | other => other

/-- What a class has under a name. -/
def classNamed? (c : PartClass) (name : String) : Option Part :=
  match inherited? .classes name with
  | none => ownNamed? c name
  | some found =>
    if found.isAttribute then attribute? (.ofClass c) name
    else (ownNamed? c name).or (some (found.handOut (.ofClass c)))

/-- What a class for certain members tells by itself; for everything else its class is asked. -/
def specialNames : List String :=
  ["__class__", "__origin__", "__args__", "__unpacked__", "__parameters__",
    "__typing_unpacked_tuple_args__", "__mro_entries__", "__reduce_ex__", "__reduce__",
    "__copy__", "__deepcopy__"]

/-- What a part that is no class has under a name. -/
def memberNamed? (p : Part) (name : String) : Option Part :=
  match inherited? p.classOf name with
  | none => none
  | some found => if found.isAttribute then p.attribute? name else some (found.handOut p)

/-- What a part has under a name. -/
def named? (p : Part) (name : String) : Option Part :=
  match p with
  | .ofClass c => classNamed? c name
  | .special c _ => if name ∈ specialNames then p.memberNamed? name else classNamed? c name
  | _ => p.memberNamed? name

/-- What a part has under a name, which must be there. -/
def named (p : Part) (name : String) : Except Fault Part :=
  match p.named? name with
  | some q => .ok q
  | none => .error (.noSuchPart p.classOf.name name)

/-! ## Positions -/

/-- What stands between brackets behind a part. -/
inductive Index where
  /-- A position. -/
  | position (i : Nat)
  /-- A key. -/
  | key (name : List Char)
  deriving DecidableEq, Repr

/-- An index as a part. -/
def Index.part : Index → Part
  | .position i => .number i
  | .key name => .text name

/-- Whether there are classes for certain members of a class. -/
def isGeneric (c : PartClass) : Bool := c = .classes || (defined? c "__class_getitem__").isSome

/-- What stands at an index of a part. -/
def at? (p : Part) (index : Index) : Except Fault Part :=
  let found (q : Option Part) : Except Fault Part :=
    match q with
    | some q => .ok q
    | none => .error .outOfRange
  match p, index with
  | .text cs, .position i => found ((glyphs cs)[i]?.map .text)
  | .row items, .position i => found items[i]?
  | .directory c, .key name =>
    match defined? c (String.ofList name) with
    | some q => .ok q
    | none => .error (.missingKey (String.ofList name))
  | .directory _, .position i | .noEntries, .position i => .error (.missingKey (toString i))
  | .noEntries, .key name => .error (.missingKey (String.ofList name))
  | .ofClass c, index => if isGeneric c then .ok (.special c index.part) else .error .wrongKind
  | _, _ => .error .wrongKind

end Part

end Bindery.Template
