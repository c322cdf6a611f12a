import Bindery.Fault
import Bindery.Text.CodePoint

/-!
# Reading parts of values

Records are read part by part. Asking something that is not a mapping for an entry, or looping over
something that has no elements, is a fault; an absent entry is the absent value.
-/

namespace Bindery.Value

/-- The entry of a mapping under a key, the absent value if there is none. -/
def entry (v : Value) (key : String) : Except Fault Value :=
  match v with
  | .mapping es => .ok ((es.lookup key).getD .null)
  | v => .error (.noSuchPart v.kindWord "get")

/-- The elements of a list, the characters of a text, or the keys of a mapping. -/
def elements : Value → Except Fault (List Value)
  | .list items => .ok items
  | .text s => .ok ((Text.glyphs s.toList).map fun glyph => .text (String.ofList glyph))
  | .mapping es => .ok (es.map fun e => .text e.1)
  | _ => .error .wrongKind

/-- The elements of a value if it is given, otherwise none. -/
def elementsIfGiven (v : Value) : Except Fault (List Value) :=
  if v.isGiven then v.elements else .ok []

/-- A part that must be there: only mappings have parts under keys. -/
def require (v : Value) (key : String) : Except Fault Value :=
  match v with
  | .mapping es =>
    match es.lookup key with
    | some value => .ok value
    | none => .error (.missingKey key)
  | _ => .error .wrongKind

end Bindery.Value
