import Bindery.Document.Composition

/-!
# Reading documents

The value of a document: its characters are looked at first, then its tokens are put together, and
only a text that is a single document as a whole is given a meaning. A blank text holds the absent
value.
-/

namespace Bindery

open Document

/-- The value of a document. -/
def Value.ofDocument (document : String) : Except DocumentFault Value := do
  let some cs := Text.characters? document.toList | throw .character
  if !cs.all admits then throw .character
  let cs := unifyReturns cs
  match ← nodeOf? cs with
  | none => return .null
  | some n =>
    n.check
    Node.checkLevels (cs.length + 1) [n]
    n.value

end Bindery
