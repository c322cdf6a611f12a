/-!
# Texts as code points

An escape can name half of a surrogate pair, which is no character. A text holds such a half as a
character of a block that no standard assigns, and a true character of that block between two marks.
So every row of code points, halves or not, is held by a text of its own, and the code points can be
read back from it. Main statement: `codes_flatMap_ofCode`.
-/

namespace Bindery.Text

/-- Whether a code point is half of a surrogate pair. -/
def isHalfCode (n : Nat) : Bool := 0xd800 ≤ n && n < 0xe000

/-- Whether a number is a code point. -/
def isCode (n : Nat) : Bool := n < 0x110000

/-- The distance from a half to the character that stands for it. -/
def halfDistance : Nat := 0xc0000

/-- The mark, which comes right before the block. -/
def mark : Char := Char.ofNat 0xcd7ff

/-- Whether a character is the mark or belongs to the block. -/
def isReserved (c : Char) : Bool := 0xcd7ff ≤ c.toNat && c.toNat < 0xce000

/-- What holds a character. -/
def hold (c : Char) : List Char := if isReserved c then [mark, c, mark] else [c]

/-- What holds a code point. -/
def ofCode (n : Nat) : List Char :=
  if isHalfCode n then [Char.ofNat (halfDistance + n)] else hold (Char.ofNat n)

/-- A text cut into what holds its code points. -/
def glyphs : List Char → List (List Char)
  | a :: b :: c :: rest =>
    if a = mark then [a, b, c] :: glyphs rest else [a] :: glyphs (b :: c :: rest)
  | a :: rest => [a] :: glyphs rest
  | [] => []

/-- The code point that is held. -/
def codeOf : List Char → Nat
  | [a] => if isReserved a then a.toNat - halfDistance else a.toNat
  | _ :: c :: _ => c.toNat
  | [] => 0

/-- The code points of a text. -/
def codes (cs : List Char) : List Nat := (glyphs cs).map codeOf

/-- The characters of a text without halves. -/
def characters? (cs : List Char) : Option (List Char) :=
  (codes cs).mapM fun n => if isHalfCode n then none else some (Char.ofNat n)

/-- Whether a text comes before another in the order of their code points. -/
def precedes (s t : String) : Bool := decide (codes s.toList < codes t.toList)

/-- The character of a surrogate pair, if the code points form one. -/
def pair? (high low : Nat) : Option Char :=
  if 0xd800 ≤ high ∧ high < 0xdc00 ∧ 0xdc00 ≤ low ∧ low < 0xe000 then
    some (Char.ofNat (0x10000 + (high - 0xd800) * 0x400 + (low - 0xdc00)))
  else none

/-! ## Reading back -/

/-- A character that is not the mark is held by itself when it comes first. -/
theorem glyphs_cons {a : Char} (h : a ≠ mark) (cs : List Char) :
    glyphs (a :: cs) = [a] :: glyphs cs := by
  match cs with
  | [] => rfl
  | [_] => rfl
  | _ :: _ :: _ => rw [glyphs, if_neg h]

/-- What holds a character is not torn apart. -/
theorem glyphs_hold_append (c : Char) (cs : List Char) :
    glyphs (hold c ++ cs) = hold c :: glyphs cs := by
  unfold hold
  split
  · simp [glyphs]
  · next h =>
    refine glyphs_cons (fun hc => h ?_) cs
    subst hc
    decide

/-- A number below a million or so that is no half is the number of its character. -/
theorem toNat_ofNat {n : Nat} (h : isCode n) (h' : isHalfCode n = false) :
    (Char.ofNat n).toNat = n := by
  have valid : n.isValidChar := by
    simp only [isCode, isHalfCode, decide_eq_true_eq, Bool.and_eq_false_iff,
      decide_eq_false_iff_not] at h h'
    simp only [Nat.isValidChar]
    omega
  rw [Char.ofNat, dif_pos valid]
  rfl

/-- The number of the character that stands for a half. -/
theorem toNat_ofNat_half {n : Nat} (h : isHalfCode n) :
    (Char.ofNat (0xc0000 + n)).toNat = 0xc0000 + n := by
  simp only [isHalfCode, Bool.and_eq_true, decide_eq_true_eq] at h
  have small : isCode (0xc0000 + n) := by
    simp only [isCode, decide_eq_true_eq]
    omega
  refine toNat_ofNat small ?_
  simp only [isHalfCode, Bool.and_eq_false_iff, decide_eq_false_iff_not]
  omega

/-- What holds a code point is not torn apart. -/
theorem glyphs_ofCode_append {n : Nat} (cs : List Char) :
    glyphs (ofCode n ++ cs) = ofCode n :: glyphs cs := by
  unfold ofCode halfDistance
  split
  · next h =>
    refine glyphs_cons (fun hc => ?_) cs
    have hn := congrArg Char.toNat hc
    rw [toNat_ofNat_half h, show mark.toNat = 0xcd7ff by decide] at hn
    simp only [isHalfCode, Bool.and_eq_true, decide_eq_true_eq] at h
    omega
  · exact glyphs_hold_append _ cs

/-- The code point that was held is read back. -/
theorem codeOf_ofCode {n : Nat} (h : isCode n) : codeOf (ofCode n) = n := by
  unfold ofCode halfDistance
  split
  · next hn =>
    have ht := toNat_ofNat_half hn
    simp only [isHalfCode, Bool.and_eq_true, decide_eq_true_eq] at hn
    have hr : isReserved (Char.ofNat (0xc0000 + n)) = true := by
      simp only [isReserved, ht, Bool.and_eq_true, decide_eq_true_eq]
      omega
    rw [codeOf, if_pos hr, ht]
    exact Nat.add_sub_cancel_left 0xc0000 n
  · next hn =>
    have ht := toNat_ofNat h (by simpa using hn)
    unfold hold
    split
    · exact ht
    · next hr => simp [codeOf, hr, ht]

/-- The code points that a text was made to hold are read back from it. -/
theorem codes_flatMap_ofCode {ns : List Nat} (h : ∀ n ∈ ns, isCode n) :
    codes (ns.flatMap ofCode) = ns := by
  induction ns with
  | nil => rfl
  | cons n ns ih =>
    have ih := ih fun m hm => h m (List.mem_cons_of_mem n hm)
    simp only [codes] at ih ⊢
    rw [List.flatMap_cons, glyphs_ofCode_append, List.map_cons, ih,
      codeOf_ofCode (h n List.mem_cons_self)]

example : precedes (String.ofList (ofCode 0xd83d)) "\ue000" ∧ precedes "a" "ab" := by decide

example : pair? 0xd83d 0xde00 = some '😀' := by decide

end Bindery.Text
