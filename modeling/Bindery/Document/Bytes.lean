import Bindery.Text.CodePoint

/-!
# Bytes in a document

Bytes are written in base 64: four characters make three bytes, and marks at the end stand for the
characters that the last bytes do not fill. Characters that are neither digits nor marks mean
nothing.
-/

namespace Bindery.Document

/-- Whether a character is a digit in base 64. -/
def isBase64Digit (c : Char) : Bool := c.isAlphanum || c == '+' || c == '/'

/-- Whether characters write bytes behind so many digits and marks of an unfinished group of
four. -/
def writesBytes (digits marks : Nat) (cs : List Char) : Bool :=
  match cs with
  | [] => digits == 0
  | c :: cs =>
    if isBase64Digit c then writesBytes ((digits + 1) % 4) 0 cs
    else if c = '=' ∧ 2 ≤ digits then
      if 4 ≤ digits + (marks + 1) then true else writesBytes digits (marks + 1) cs
    else writesBytes digits marks cs

/-- Whether a text writes bytes: it must be in the basic characters alone. -/
def isBytes (cs : List Char) : Bool := cs.all (fun c => c.toNat < 128) && writesBytes 0 0 cs

example : isBytes "YWI=".toList ∧ isBytes "Y Q = =".toList ∧ ¬ isBytes "YW".toList := by decide

end Bindery.Document
