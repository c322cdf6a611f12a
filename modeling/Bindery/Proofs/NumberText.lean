import Bindery.Proofs.Rounding
import Bindery.Value.Canonical
import Bindery.Value.Message
import Mathlib.Data.List.TakeWhile

/-!
# Numbers in writing

A number is read by its parts, and every number in a canonical text is written by parts that can be
told apart. Whole numbers are read back exactly. The text of a binary64 number shows the digits of
the shortest decimal that reads back to it, in one of four layouts, and from each of them the number
is read back. Main statements: `isWordOf_int`, `isWordOf_float`.
-/

namespace Bindery

open Text Binary64

/-! ## Words -/

namespace Message

/-- Whether a character ends a word. -/
def endsWord (c : Char) : Bool := (Token.ofChar? c).isSome || isSpacing c

/-- Whether a character may stand anywhere in a word. -/
def isWordChar (c : Char) : Bool := !endsWord c && c != doubleQuote

/-- A word that stands for a value. -/
structure IsWordOf (cs : List Char) (v : Value) : Prop where
  /-- Nothing in it ends the word. -/
  letters : ∀ c ∈ cs, isWordChar c = true
  /-- It is read as the value. -/
  value : ofWord? cs = some v

/-- A word has characters. -/
theorem IsWordOf.ne_nil {cs : List Char} {v : Value} (h : IsWordOf cs v) : cs ≠ [] := by
  rintro rfl
  cases h.value

/-- The name of a value is a word for it. -/
theorem isWordOf_named : ∀ e ∈ named, IsWordOf e.1.toList e.2 := by
  have letters : ∀ e ∈ named, e.1.toList.all isWordChar = true := by decide
  have value : ∀ e ∈ named, ofWord? e.1.toList = some e.2 := by decide
  exact fun e he => ⟨List.all_eq_true.1 (letters e he), value e he⟩

end Message

open Message

/-! ## Digits -/

/-- Whether all characters are digits. -/
def AreDigits (ds : List Char) : Prop := ∀ c ∈ ds, c.isDigit = true

section Digits

variable {ds es : List Char} {n k : Nat}

/-- Rows of digits make up a row of digits. -/
theorem areDigits_append : AreDigits (ds ++ es) ↔ AreDigits ds ∧ AreDigits es :=
  List.forall_mem_append

/-- Zeros are digits. -/
theorem areDigits_zeros (k : Nat) : AreDigits (zeros k) := by
  intro c hc
  rw [(List.mem_replicate.1 hc).2]
  rfl

/-- The digits of a number are digits. -/
theorem areDigits_toDigits (n : Nat) : AreDigits (Nat.toDigits 10 n) := fun _ hc =>
  Nat.isDigit_of_mem_toDigits (by decide) (by decide) hc

/-- Digits that follow others count ten times less for each of them. -/
theorem digitsValue_append (ds es : List Char) :
    digitsValue (ds ++ es) = digitsValue ds * 10 ^ es.length + digitsValue es := by
  have behind : Nat.ofDigitChars 10 es (digitsValue ds) =
      digitsValue ds * 10 ^ es.length + digitsValue es := by
    rw [Nat.ofDigitChars_eq_ofDigitChars_zero, Nat.mul_comm]
    rfl
  exact (Nat.ofDigitChars_append 0).trans behind

/-- Zeros have no value. -/
theorem digitsValue_zeros (k : Nat) : digitsValue (zeros k) = 0 :=
  (Nat.ofDigitChars_replicate_zero (b := 10)).trans (Nat.mul_zero _)

/-- The digits of a number have its value. -/
theorem digitsValue_toDigits (n : Nat) : digitsValue (Nat.toDigits 10 n) = n :=
  Nat.ofDigitChars_ten_toDigits

/-- Zeros in front of digits do not change their value. -/
theorem digitsValue_zeros_append (k : Nat) (ds : List Char) :
    digitsValue (zeros k ++ ds) = digitsValue ds := by
  rw [digitsValue_append, digitsValue_zeros, Nat.zero_mul, Nat.zero_add]

/-- Zeros behind digits multiply their value by powers of ten. -/
theorem digitsValue_append_zeros (ds : List Char) (k : Nat) :
    digitsValue (ds ++ zeros k) = digitsValue ds * 10 ^ k := by
  rw [digitsValue_append, digitsValue_zeros, zeros, List.length_replicate, Nat.add_zero]

/-- No number but zero begins with the digit zero. -/
theorem head?_toDigits (h : 0 < n) : (Nat.toDigits 10 n).head? ≠ some '0' := by
  induction n using Nat.strongRecOn with
  | ind n ih =>
    by_cases small : n < 10
    · rw [Nat.toDigits_of_lt_base small, List.head?_cons, ne_eq, Option.some.injEq,
        Nat.digitChar_eq_zero]
      exact h.ne'
    · rw [Nat.toDigits_of_base_le (by decide) (by omega),
        List.head?_append_of_ne_nil _ Nat.toDigits_ne_nil]
      exact ih (n / 10) (by omega) (by omega)

/-- The digits of a number are its significant ones and zeros. -/
theorem exists_toDigits_eq (n : Nat) : ∃ k, Nat.toDigits 10 n = significant n ++ zeros k := by
  have idle := List.eq_replicate_iff.2
    ⟨rfl, fun c hc => beq_iff_eq.1 (List.mem_takeWhile_imp (p := (· == '0'))
      (l := (Nat.toDigits 10 n).reverse) hc)⟩
  refine ⟨((Nat.toDigits 10 n).reverse.takeWhile (· == '0')).length, ?_⟩
  calc Nat.toDigits 10 n
    _ = ((Nat.toDigits 10 n).reverse.takeWhile (· == '0') ++
          (Nat.toDigits 10 n).reverse.dropWhile (· == '0')).reverse := by
      rw [List.takeWhile_append_dropWhile, List.reverse_reverse]
    _ = significant n ++ ((Nat.toDigits 10 n).reverse.takeWhile (· == '0')).reverse := by
      rw [List.reverse_append, significant]
    _ = significant n ++ zeros ((Nat.toDigits 10 n).reverse.takeWhile (· == '0')).length := by
      rw [idle, List.reverse_replicate, List.length_replicate, zeros]

/-- What is significant of a number: digits of which the first is not zero. -/
structure AreSignificant (ds : List Char) : Prop where
  /-- All are digits. -/
  digits : AreDigits ds
  /-- There is one. -/
  present : ds ≠ []
  /-- None in front is idle. -/
  first : ds.head? ≠ some '0'

/-- Significant digits have the value of the number but for a power of ten. -/
theorem exists_digitsValue_significant (n : Nat) : ∃ k,
    digitsValue (significant n) * 10 ^ k = n ∧ digitCount n = (significant n).length + k := by
  obtain ⟨k, all⟩ := exists_toDigits_eq n
  refine ⟨k, ?_, ?_⟩
  · rw [← digitsValue_append_zeros, ← all, digitsValue_toDigits]
  · rw [digitCount, all, List.length_append, zeros, List.length_replicate]

/-- Significant digits of a number that is not zero are not. -/
theorem digitsValue_significant_pos (h : 0 < n) : 0 < digitsValue (significant n) := by
  obtain ⟨k, value, -⟩ := exists_digitsValue_significant n
  refine Nat.pos_of_ne_zero fun zero => ?_
  rw [zero, Nat.zero_mul] at value
  omega

/-- A number has significant digits unless it is zero. -/
theorem areSignificant_significant (h : 0 < n) : AreSignificant (significant n) := by
  obtain ⟨k, all⟩ := exists_toDigits_eq n
  have digits := areDigits_toDigits n
  rw [all, areDigits_append] at digits
  have present : significant n ≠ [] := by
    intro none
    have value := digitsValue_significant_pos h
    rw [none] at value
    exact lt_irrefl 0 value
  have first := head?_toDigits h
  rw [all, List.head?_append_of_ne_nil _ present] at first
  exact ⟨digits.1, present, first⟩

/-- The first of some significant digits are significant. -/
theorem AreSignificant.take (h : AreSignificant ds) {count : Nat} (positive : 0 < count) :
    AreSignificant (ds.take count) where
  digits c hc := h.digits c (List.mem_of_mem_take hc)
  present none := (List.take_eq_nil_iff.1 none).elim positive.ne' h.present
  first := by
    rw [List.head?_take, if_neg positive.ne']
    exact h.first

/-- Zeros behind significant digits are significant. -/
theorem AreSignificant.append_zeros (h : AreSignificant ds) (k : Nat) :
    AreSignificant (ds ++ zeros k) where
  digits := areDigits_append.2 ⟨h.digits, areDigits_zeros k⟩
  present none := h.present (List.append_eq_nil_iff.1 none).1
  first := by
    rw [List.head?_append_of_ne_nil _ h.present]
    exact h.first

end Digits

/-! ## Numbers by their parts -/

namespace Decimal

/-- A fraction in writing. -/
def fractionText : Option (List Char) → List Char
  | none => []
  | some ds => '.' :: ds

/-- An exponent in writing. -/
def powerText : Option (Option Char × List Char) → List Char
  | none => []
  | some (sign, ds) => 'e' :: (sign.toList ++ ds)

/-- A number in writing. -/
def written (x : Decimal) : List Char :=
  x.sign.toList ++ (x.whole ++ (fractionText x.fraction ++ powerText x.exponent))

/-- Whether a number is written as in messages: with no plus sign and no idle zeros in front, and
with digits wherever there may be some. -/
structure IsPlain (x : Decimal) : Prop where
  /-- A minus sign or none. -/
  sign : x.sign = none ∨ x.sign = some '-'
  /-- A whole part. -/
  present : x.whole ≠ []
  /-- It has digits. -/
  whole : AreDigits x.whole
  /-- It begins with zero only if it is zero. -/
  idle : x.whole.head? = some '0' → x.whole = ['0']
  /-- The fraction has digits. -/
  fraction : ∀ ds, x.fraction = some ds → ds ≠ [] ∧ AreDigits ds
  /-- The exponent has a sign and digits. -/
  exponent : ∀ sign ds, x.exponent = some (sign, ds) →
    (sign = some '+' ∨ sign = some '-') ∧ ds ≠ [] ∧ AreDigits ds

/-- A character that numbers are written with. -/
def isNumberChar (c : Char) : Bool :=
  c.isDigit || c == '-' || c == '+' || c == '.' || c == 'e'

section Written

variable {x : Decimal} {ds rest : List Char}

/-- Digits reach as far as there are digits. -/
theorem takeWhile_isDigit_append (digits : AreDigits ds)
    (stop : ∀ c ∈ rest.head?, c.isDigit = false) :
    (ds ++ rest).takeWhile Char.isDigit = ds ∧ (ds ++ rest).dropWhile Char.isDigit = rest := by
  rw [List.takeWhile_append_of_pos digits, List.dropWhile_append_of_pos digits]
  cases rest with
  | nil => exact ⟨List.append_nil ds, rfl⟩
  | cons c rest =>
    have other := Bool.not_eq_true _ ▸ stop c rfl
    rw [List.takeWhile_cons_of_neg other, List.dropWhile_cons_of_neg other, List.append_nil]
    exact ⟨rfl, rfl⟩

/-- A sign is told from digits. -/
theorem signed_of_isDigit {d : Char} (h : d.isDigit = true) (cs : List Char) :
    signed (d :: cs) = (none, d :: cs) := by
  rw [signed]
  · intro rest same
    cases (List.cons.inj same).1
    cases h
  · intro rest same
    cases (List.cons.inj same).1
    cases h

/-- A sign is read back from in front of digits. -/
theorem signed_append {sign : Option Char} (known : sign = none ∨ sign = some '+' ∨ sign = some '-')
    (present : ds ≠ []) (digits : AreDigits ds) (rest : List Char) :
    signed (sign.toList ++ (ds ++ rest)) = (sign, ds ++ rest) := by
  obtain rfl | rfl | rfl := known
  · cases ds with
    | nil => exact absurd rfl present
    | cons d ds => exact signed_of_isDigit (digits d List.mem_cons_self) _
  · rfl
  · rfl

/-- An exponent is read back. -/
theorem exponent?_powerText {sign : Option Char} (known : sign = some '+' ∨ sign = some '-')
    (present : ds ≠ []) (digits : AreDigits ds) :
    exponent? ('e' :: (sign.toList ++ ds)) = some (sign, ds) := by
  have apart := signed_append (.inr known) present digits []
  rw [List.append_nil] at apart
  rw [exponent?, apart]
  have all : ds.all Char.isDigit = true := List.all_eq_true.2 digits
  simp [present, all]

/-- A fraction and an exponent begin with something else than a digit. -/
theorem head?_fractionText (fraction : Option (List Char))
    (exponent : Option (Option Char × List Char)) :
    (∀ c ∈ (powerText exponent).head?, c.isDigit = false) ∧
      ∀ c ∈ (fractionText fraction ++ powerText exponent).head?, c.isDigit = false := by
  have point : ∀ c ∈ some '.', c.isDigit = false := by
    rintro c ⟨⟩
    rfl
  have letter : ∀ c ∈ some 'e', c.isDigit = false := by
    rintro c ⟨⟩
    rfl
  cases exponent with
  | none =>
    cases fraction with
    | none => exact ⟨nofun, nofun⟩
    | some fs => exact ⟨nofun, point⟩
  | some exponent =>
    cases fraction with
    | none => exact ⟨letter, letter⟩
    | some fs => exact ⟨letter, point⟩

/-- What is written is read by its parts. -/
theorem ofChars?_written (h : x.IsPlain) : ofChars? Char.isDigit x.written = some x := by
  obtain ⟨sign, whole, fraction, exponent⟩ := x
  have signs := signed_append (h.sign.imp_right .inr) h.present h.whole
    (fractionText fraction ++ powerText exponent)
  obtain ⟨stop, stop'⟩ := head?_fractionText fraction exponent
  obtain ⟨taken, left⟩ := takeWhile_isDigit_append h.whole stop'
  dsimp only at signs taken left
  rw [ofChars?, written]
  simp only [signs, taken, left]
  have behind : pointed Char.isDigit (fractionText fraction ++ powerText exponent) =
      (fraction, powerText exponent) := by
    cases fraction with
    | none =>
      cases exponent with
      | none => rfl
      | some exponent => rfl
    | some fs =>
      obtain ⟨taken, left⟩ := takeWhile_isDigit_append (h.fraction fs rfl).2 stop
      rw [fractionText, List.cons_append, pointed, taken, left]
  rw [behind]
  cases exponent with
  | none => rfl
  | some exponent =>
    obtain ⟨sign', es⟩ := exponent
    obtain ⟨known, present, digits⟩ := h.exponent sign' es rfl
    rw [powerText, exponent?_powerText known present digits]
    rfl

/-- Digits are such characters. -/
theorem isNumberChar_of_isDigit {c : Char} (h : c.isDigit = true) : isNumberChar c = true := by
  simp [isNumberChar, h]

/-- Numbers are written with these characters only. -/
theorem isNumberChar_of_mem (h : x.IsPlain) {c : Char} (hc : c ∈ x.written) :
    isNumberChar c = true := by
  have minus : ∀ {sign : Option Char}, (sign = none ∨ sign = some '+' ∨ sign = some '-') →
      ∀ c ∈ sign.toList, isNumberChar c = true := by
    rintro sign (rfl | rfl | rfl) <;> simp [isNumberChar]
  have power : ∀ c ∈ powerText x.exponent, isNumberChar c = true := by
    cases exponent : x.exponent with
    | none => exact nofun
    | some e =>
      obtain ⟨sign, ds⟩ := e
      obtain ⟨known, -, digits⟩ := h.exponent sign ds exponent
      rw [powerText, List.forall_mem_cons, List.forall_mem_append]
      exact ⟨rfl, minus (.inr known), fun c hc => isNumberChar_of_isDigit (digits c hc)⟩
  have point : ∀ c ∈ fractionText x.fraction, isNumberChar c = true := by
    cases fraction : x.fraction with
    | none => exact nofun
    | some ds =>
      rw [fractionText, List.forall_mem_cons]
      exact ⟨rfl, fun c hc => isNumberChar_of_isDigit ((h.fraction ds fraction).2 c hc)⟩
  rw [written, List.mem_append, List.mem_append, List.mem_append] at hc
  obtain hc | hc | hc | hc := hc
  · exact minus (h.sign.imp_right .inr) c hc
  · exact isNumberChar_of_isDigit (h.whole c hc)
  · exact point c hc
  · exact power c hc

/-- What is written as in messages is a number there. -/
theorem isNumber_of_isPlain (h : x.IsPlain) : isNumber x = true := by
  have sign : x.sign ≠ some '+' := by
    obtain none | minus := h.sign
    · rw [none]
      exact nofun
    · rw [minus]
      decide
  have fraction : x.fraction ≠ some [] := fun none => (h.fraction [] none).1 rfl
  have whole : x.whole.head? ≠ some '0' ∨ x.whole = ['0'] := or_iff_not_imp_left.2 fun zero =>
    h.idle (not_not.1 zero)
  simp [isNumber, sign, fraction, whole, h.present]

/-- No name of a value is written like a number. -/
theorem named_lookup_of_isNumberChar {cs : List Char} (h : ∀ c ∈ cs, isNumberChar c = true) :
    named.lookup (String.ofList cs) = none := by
  have names : ∀ e ∈ named, e.1.toList.all isNumberChar = false := by decide
  refine List.lookup_eq_none_iff.2 fun e he => bne_iff_ne.2 fun same => ?_
  have other := names e he
  rw [← same, String.toList_ofList, List.all_eq_true.2 h] at other
  cases other

/-- The characters of numbers may stand in words. -/
theorem isWordChar_of_isNumberChar {c : Char} (h : isNumberChar c = true) :
    isWordChar c = true := by
  have apart : ∀ d ∈ ['[', ']', '\x7b', '\x7d', ',', ':', ' ', '\t', '\n', '\r', doubleQuote],
      c ≠ d := by
    have others : ['[', ']', '\x7b', '\x7d', ',', ':', ' ', '\t', '\n', '\r', doubleQuote].all
        (!isNumberChar ·) = true := by decide
    rintro d hd rfl
    have other := List.all_eq_true.1 others c hd
    rw [h] at other
    cases other
  simp only [List.forall_mem_cons] at apart
  have token : Token.ofChar? c = none := by
    rw [Token.ofChar?.eq_def]
    split <;> simp_all
  simp [isWordChar, endsWord, isSpacing, token, apart]

/-- A number in writing is a word for it. -/
theorem isWordOf_written (h : x.IsPlain) :
    IsWordOf x.written (if x.isWhole then .int x.toInt else .float x.toFloat) where
  letters _ hc := isWordChar_of_isNumberChar (isNumberChar_of_mem h hc)
  value := by
    rw [ofWord?, named_lookup_of_isNumberChar fun c => isNumberChar_of_mem h, ofChars?_written h]
    simp only [Option.filter_some, isNumber_of_isPlain h, if_true, Option.map_some]

end Written

/-! ## Whole numbers -/

/-- A whole number by its parts. -/
def ofInt (n : Int) : Decimal :=
  ⟨if n < 0 then some '-' else none, Nat.toDigits 10 n.natAbs, none, none⟩

/-- It is written as in messages. -/
theorem isPlain_ofInt (n : Int) : (ofInt n).IsPlain where
  sign := by
    rw [ofInt]
    split
    · exact .inr rfl
    · exact .inl rfl
  present := Nat.toDigits_ne_nil
  whole := areDigits_toDigits _
  idle zero := by
    rcases Nat.eq_zero_or_pos n.natAbs with none | positive
    · rw [ofInt, none]
      rfl
    · exact absurd zero (head?_toDigits positive)
  fraction := nofun
  exponent := nofun

/-- Its parts in writing are its text. -/
theorem written_ofInt (n : Int) : (ofInt n).written = (toString n).toList := by
  rw [Int.toString_eq_repr, Int.repr_eq_if, written, ofInt]
  simp only [fractionText, powerText, List.append_nil]
  by_cases negative : n < 0
  · rw [if_pos negative, if_neg (by omega), String.toList_append, Nat.toList_repr,
      show (-n).toNat = n.natAbs by omega]
    rfl
  · rw [if_neg negative, if_pos (by omega), Nat.toList_repr, show n.toNat = n.natAbs by omega]
    rfl

/-- They amount to the number. -/
theorem toInt_ofInt (n : Int) : (ofInt n).toInt = n := by
  rw [toInt, ofInt]
  dsimp only
  rw [digitsValue_toDigits]
  by_cases negative : n < 0
  · rw [if_pos (by rw [if_pos negative])]
    omega
  · rw [if_neg (by rw [if_neg negative]; exact nofun)]
    omega

end Decimal

/-- The text of a whole number is a word for it. -/
theorem isWordOf_int (n : Int) : IsWordOf (toString n).toList (.int n) := by
  have word := Decimal.isWordOf_written (Decimal.isPlain_ofInt n)
  rwa [Decimal.written_ofInt, Decimal.toInt_ofInt] at word

/-! ## Binary64 numbers -/

namespace Decimal

/-- A number with a point or an exponent by its parts: its significant digits, with the point behind
the first `point` of them. -/
def ofDigits (negative : Bool) (digits : List Char) (point : Int) : Decimal :=
  let sign := if negative then some '-' else none
  if -4 < point ∧ point ≤ 16 then
    if point ≤ 0 then ⟨sign, ['0'], some (zeros (-point).toNat ++ digits), none⟩
    else
      if digits.length ≤ point.toNat then
        ⟨sign, digits ++ zeros (point.toNat - digits.length), some ['0'], none⟩
      else ⟨sign, digits.take point.toNat, some (digits.drop point.toNat), none⟩
  else
    ⟨sign, digits.take 1, if digits.length ≤ 1 then none else some (digits.drop 1),
      some (some (if point - 1 < 0 then '-' else '+'),
        zeros (2 - (Nat.toDigits 10 (point - 1).natAbs).length) ++
          Nat.toDigits 10 (point - 1).natAbs)⟩

section OfDigits

variable {digits : List Char}

/-- Its parts in writing are what is written with these digits. -/
theorem written_ofDigits (negative : Bool) (present : digits ≠ []) (point : Int) :
    (ofDigits negative digits point).written =
      (if negative then ['-'] else []) ++ writeDigits digits point := by
  have minus : (if negative then some '-' else none : Option Char).toList =
      if negative then ['-'] else [] := by cases negative <;> rfl
  rw [written, ofDigits]
  unfold writeDigits
  split
  · split
    · simp [fractionText, powerText, minus]
    · dsimp only
      split
      · simp [fractionText, powerText, minus]
      · simp [fractionText, powerText, minus]
  · cases digits with
    | nil => exact absurd rfl present
    | cons d ds =>
      cases ds with
      | nil => simp [fractionText, powerText, exponentText, minus]
      | cons d' ds => simp [fractionText, powerText, exponentText, minus]

/-- A number is written as in messages if its whole part is significant or zero, and its fraction
and exponent have digits. -/
theorem isPlain_of_parts (negative : Bool) {whole : List Char} {fraction : Option (List Char)}
    {exponent : Option (Option Char × List Char)} (hw : whole = ['0'] ∨ AreSignificant whole)
    (hf : ∀ ds, fraction = some ds → ds ≠ [] ∧ AreDigits ds)
    (he : ∀ sign ds, exponent = some (sign, ds) →
      (sign = some '+' ∨ sign = some '-') ∧ ds ≠ [] ∧ AreDigits ds) :
    IsPlain ⟨if negative then some '-' else none, whole, fraction, exponent⟩ where
  sign := by cases negative <;> simp
  present := hw.elim (by rintro rfl; exact List.cons_ne_nil _ _) (·.present)
  whole := hw.elim (by rintro rfl; exact areDigits_zeros 1) (·.digits)
  idle zero := hw.resolve_right fun h => h.first zero
  fraction := hf
  exponent := he

/-- It is written as in messages. -/
theorem isPlain_ofDigits (negative : Bool) (h : AreSignificant digits) (point : Int) :
    (ofDigits negative digits point).IsPlain := by
  rw [ofDigits]
  split
  · split
    · refine isPlain_of_parts negative (.inl rfl) ?_ nofun
      rintro ds ⟨⟩
      exact ⟨fun none => h.present (List.append_eq_nil_iff.1 none).2,
        areDigits_append.2 ⟨areDigits_zeros _, h.digits⟩⟩
    · split
      · refine isPlain_of_parts negative (.inr (h.append_zeros _)) ?_ nofun
        rintro ds ⟨⟩
        exact ⟨List.cons_ne_nil _ _, areDigits_zeros 1⟩
      · refine isPlain_of_parts negative (.inr (h.take (by omega))) ?_ nofun
        rintro ds ⟨⟩
        exact ⟨by rw [ne_eq, List.drop_eq_nil_iff]; omega,
          fun c hc => h.digits c (List.mem_of_mem_drop hc)⟩
  · refine isPlain_of_parts negative (.inr (h.take Nat.one_pos)) ?_ ?_
    · intro ds same
      split at same
      · cases same
      · cases same
        exact ⟨by rw [ne_eq, List.drop_eq_nil_iff]; omega,
          fun c hc => h.digits c (List.mem_of_mem_drop hc)⟩
    · rintro sign ds ⟨⟩
      refine ⟨?_, fun none => Nat.toDigits_ne_nil (List.append_eq_nil_iff.1 none).2,
        areDigits_append.2 ⟨areDigits_zeros _, areDigits_toDigits _⟩⟩
      split
      · exact .inr rfl
      · exact .inl rfl

/-- It has a fraction or an exponent. -/
theorem isWhole_ofDigits (negative : Bool) (point : Int) :
    (ofDigits negative digits point).isWhole = false := by
  rw [isWhole, ofDigits]
  split
  · split
    · rfl
    · split <;> rfl
  · simp

/-- The value of an exponent. -/
def powerValue : Option (Option Char × List Char) → Int
  | some (some '-', ds) => -(digitsValue ds : Int)
  | some (_, ds) => digitsValue ds
  | none => 0

/-- A number of digits amounts to all of them times a power of ten. -/
theorem toFloat_of_areDigits (x : Decimal) (hw : AreDigits x.whole)
    (hf : AreDigits (x.fraction.getD [])) : x.toFloat =
      .ofDecimal (x.sign = some '-') (digitsValue (x.whole ++ x.fraction.getD []))
        (powerValue x.exponent - (x.fraction.getD []).length) := by
  rw [toFloat]
  dsimp only
  rw [List.filter_eq_self.2 hw, List.filter_eq_self.2 hf]
  rfl

/-- The value of an exponent is read back. -/
theorem powerValue_some (e : Int) (k : Nat) :
    powerValue (some (some (if e < 0 then '-' else '+'),
      zeros k ++ Nat.toDigits 10 e.natAbs)) = e := by
  by_cases negative : e < 0
  · rw [if_pos negative, powerValue, digitsValue_zeros_append, digitsValue_toDigits]
    omega
  · rw [if_neg negative, powerValue, digitsValue_zeros_append, digitsValue_toDigits]
    · omega
    · nofun

/-- It amounts to its digits as a whole number times a power of ten. -/
theorem toFloat_ofDigits (negative : Bool) (h : AreSignificant digits)
    (positive : 0 < digitsValue digits) (point : Int) : (ofDigits negative digits point).toFloat =
      .ofDecimal negative (digitsValue digits) (point - digits.length) := by
  have plain := isPlain_ofDigits negative h point
  have fraction : AreDigits ((ofDigits negative digits point).fraction.getD []) := by
    cases same : (ofDigits negative digits point).fraction with
    | none => exact nofun
    | some ds => exact (plain.fraction ds same).2
  have sign : decide ((if negative then some '-' else none) = some '-') = negative := by
    cases negative <;> rfl
  rw [toFloat_of_areDigits _ plain.whole fraction, ofDigits]
  split
  · split
    · simp only [sign, Option.getD_some, powerValue]
      have exponent : 0 - ((zeros (-point).toNat ++ digits).length : Int) =
          point - digits.length := by
        rw [List.length_append, zeros, List.length_replicate]
        omega
      rw [show ['0'] = zeros 1 from rfl, digitsValue_zeros_append, digitsValue_zeros_append,
        exponent]
    · split
      · simp only [sign, Option.getD_some, powerValue]
        have exponent : 0 - ((['0'].length : Nat) : Int) = point - digits.length -
            ((point.toNat - digits.length + 1 : Nat) : Int) := by
          rw [List.length_singleton]
          omega
        rw [exponent, show ['0'] = zeros 1 from rfl, digitsValue_append_zeros,
          digitsValue_append_zeros, Nat.mul_assoc, ← Nat.pow_add, ofDecimal,
          rankOfDecimal_mul_pow positive, ofDecimal]
      · simp only [sign, Option.getD_some, powerValue]
        have exponent : 0 - ((digits.drop point.toNat).length : Int) = point - digits.length := by
          rw [List.length_drop]
          omega
        rw [List.take_append_drop, exponent]
  · simp only [sign, powerValue_some]
    have rest : (if digits.length ≤ 1 then none else some (digits.drop 1)).getD [] =
        digits.drop 1 := by
      split
      · next short => rw [List.drop_eq_nil_of_le short, Option.getD_none]
      · rfl
    have exponent : point - 1 - ((digits.drop 1).length : Int) = point - digits.length := by
      have := List.length_pos_of_ne_nil h.present
      rw [List.length_drop]
      omega
    rw [rest, List.take_append_drop, exponent]

end OfDigits

end Decimal

namespace Binary64

/-- The significant digits of a shortest decimal, with its point, amount to the number. -/
theorem ofDecimal_significant {rank : Nat} (positive : 0 < rank) (finite : rank < topRank)
    (negative : Bool) :
    0 < (shortest rank).digits ∧
      ofDecimal negative (digitsValue (significant (shortest rank).digits))
        ((digitCount (shortest rank).digits : Int) + (shortest rank).exponent -
          (significant (shortest rank).digits).length) = ofRank negative rank := by
  have reads := rankOfDecimal_shortest positive finite
  generalize shortest rank = decimal at reads ⊢
  obtain ⟨digits, exponent⟩ := decimal
  dsimp only at reads ⊢
  have some : 0 < digits := by
    refine Nat.pos_of_ne_zero fun zero => ?_
    rw [rankOfDecimal, if_pos (.inl zero)] at reads
    omega
  have some' := digitsValue_significant_pos some
  obtain ⟨k, value, count⟩ := exists_digitsValue_significant digits
  have place : (digitCount digits : Int) + exponent - (significant digits).length =
      exponent + k := by omega
  have shifted := rankOfDecimal_mul_pow some' k (exponent + k)
  rw [value, add_sub_cancel_right, reads] at shifted
  rw [place, ofDecimal, ← shifted]
  exact ⟨some, rfl⟩

/-- A rank that is one of a number is its rank. -/
theorem ofRank_eq {negative : Bool} {rank : Nat} (h : rank ≤ topRank) :
    ofRank negative rank = ⟨negative, rank, h⟩ := by
  simp only [ofRank, Nat.min_eq_left h]

/-- The characters of a number. -/
theorem toList_text (infinity : String) (x : Binary64) : (x.text infinity).toList =
    (if x.negative then ['-'] else []) ++
      if x.isInfinite then infinity.toList else magnitudeText x.rank := by
  rw [text, String.toList_ofList]
  cases x.negative <;> rfl

/-- A magnitude is written by parts that amount to it. -/
theorem exists_written {rank : Nat} (finite : rank < topRank) (negative : Bool) :
    ∃ parts : Bindery.Decimal, parts.IsPlain ∧ parts.isWhole = false ∧
      parts.written = (if negative then ['-'] else []) ++ magnitudeText rank ∧
      parts.toFloat = ofRank negative rank := by
  obtain rfl | positive := Nat.eq_zero_or_pos rank
  · refine ⟨⟨if negative then some '-' else none, ['0'], some ['0'], none⟩, ?_, rfl, ?_, ?_⟩
    · refine Decimal.isPlain_of_parts negative (.inl rfl) ?_ nofun
      rintro ds ⟨⟩
      exact ⟨List.cons_ne_nil _ _, areDigits_zeros 1⟩
    · cases negative <;> rfl
    · cases negative <;> rfl
  · obtain ⟨some, amounts⟩ := ofDecimal_significant positive finite negative
    have significant := areSignificant_significant some
    refine ⟨.ofDigits negative (Binary64.significant (shortest rank).digits)
      ((digitCount (shortest rank).digits : Int) + (shortest rank).exponent),
      Decimal.isPlain_ofDigits negative significant _, Decimal.isWhole_ofDigits negative _, ?_, ?_⟩
    · rw [Decimal.written_ofDigits negative significant.present, magnitudeText,
        if_neg positive.ne']
    · rw [Decimal.toFloat_ofDigits negative significant (digitsValue_significant_pos some), amounts]

end Binary64

/-- The text of a binary64 number is a word for it. -/
theorem isWordOf_float (x : Binary64) : IsWordOf (x.text "Infinity").toList (.float x) := by
  obtain ⟨negative, rank, bound⟩ := x
  rw [toList_text]
  by_cases finite : rank < topRank
  · have notInfinite : Binary64.isInfinite ⟨negative, rank, bound⟩ = false :=
      beq_eq_false_iff_ne.2 finite.ne
    obtain ⟨parts, plain, fractional, text, amounts⟩ := exists_written finite negative
    have word := Decimal.isWordOf_written plain
    rw [text, fractional, if_neg Bool.false_ne_true, amounts, ofRank_eq bound] at word
    rwa [notInfinite, if_neg Bool.false_ne_true]
  · obtain rfl : rank = topRank := by omega
    have infinite : Binary64.isInfinite ⟨negative, topRank, bound⟩ = true := beq_self_eq_true _
    rw [infinite, if_pos rfl, ← ofRank_eq]
    cases negative
    · exact isWordOf_named _ (List.mem_of_getElem? (i := 3) rfl)
    · exact isWordOf_named _ (List.mem_of_getElem? (i := 4) rfl)

end Bindery
