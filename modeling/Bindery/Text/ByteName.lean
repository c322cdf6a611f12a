import Bindery.Text.CodePoint

/-!
# Names as bytes

Where a name is kept as bytes, every character takes the bytes of its UTF-8 form. Bytes that form no
character are shown as the halves from U+DC80 on, one for each, and such a half is kept as its byte.
So halves that come to stand next to each other may be shown as a character when they are read back.
-/

namespace Bindery.Text

/-- Whether a code point is a half that stands for a single byte. -/
def isByteHalf (n : Nat) : Bool := 0xdc80 ≤ n && n < 0xdd00

/-- The bytes of a code point, which is no half unless it stands for a byte. -/
def bytesOfCode (n : Nat) : List UInt8 :=
  if isByteHalf n then [(n - 0xdc00).toUInt8] else String.utf8EncodeChar (Char.ofNat n)

/-- The bytes that a name is kept as. -/
def bytes (cs : List Char) : List UInt8 := (codes cs).flatMap bytesOfCode

/-- The character that bytes begin with and the number of bytes that it takes. -/
def firstCharacter? (bs : List UInt8) : Option (Char × Nat) :=
  [1, 2, 3, 4].findSome? fun n =>
    match (String.fromUTF8? ⟨(bs.take n).toArray⟩).map String.toList with
    | some [c] => some (c, n)
    | _ => none

/-- The name that bytes are shown as, but for the first few, which were shown before. -/
def shownFrom : Nat → List UInt8 → List Char
  | _, [] => []
  | skip + 1, _ :: bs => shownFrom skip bs
  | 0, b :: bs =>
    match firstCharacter? (b :: bs) with
    | some (c, n) => hold c ++ shownFrom (n - 1) bs
    | none => ofCode (0xdc00 + b.toNat) ++ shownFrom 0 bs

/-- A name as it is shown after it was kept. -/
def kept (name : String) : String := String.ofList (shownFrom 0 (bytes name.toList))

example : kept "x" = "x" := by decide +kernel

example : kept (String.ofList ([0xdcc3, 0xdca9, 0xdc80].flatMap ofCode)) =
    String.ofList ('é' :: ofCode 0xdc80) := by
  decide +kernel

end Bindery.Text
