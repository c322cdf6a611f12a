import Bindery.Proofs.NumberText
import Bindery.Proofs.Reordering

/-!
# Tokens of canonical texts

A canonical text comes apart at its brackets, commas and colons, and between them are words and
quoted texts. A word is one token. So is a quoted text, whose escapes give back what was escaped: a
character beyond the basic plane is written as the two halves of a pair, which are joined again.
Main statements: `areReadAs_canonicalText`, `areReadAs_canonicalChars`.
-/

namespace Bindery

/-! ## Hexadecimal digits -/

namespace Text

/-- A hexadecimal digit has its value. -/
theorem hexValue?_hexDigit : ∀ n < 16, hexValue? (hexDigit n) = some n := by decide

/-- A digit behind others counts once, and they count sixteen times as much. -/
theorem ofHex?_concat (ds : List Char) (d : Char) : ofHex? (ds ++ [d]) =
    (ofHex? ds).bind fun n => (hexValue? d).map fun last => 16 * n + last := by
  rw [ofHex?, List.foldl_append]
  rfl

/-- The last digits of a number are read back. -/
theorem ofHex?_hexDigits (width n : Nat) : ofHex? (hexDigits width n) = some (n % 16 ^ width) := by
  induction width generalizing n with
  | zero => rw [Nat.pow_zero, Nat.mod_one]; rfl
  | succ width ih =>
    rw [hexDigits, ofHex?_concat, ih, hexValue?_hexDigit _ (Nat.mod_lt n (by decide)),
      Nat.pow_succ', Nat.mod_mul]
    exact congrArg some (Nat.add_comm _ _)

/-- As many digits are written as there is room for. -/
theorem length_hexDigits (width n : Nat) : (hexDigits width n).length = width := by
  induction width generalizing n with
  | zero => rfl
  | succ width ih => rw [hexDigits, List.length_append, ih, List.length_singleton]

/-- All of them are hexadecimal digits. -/
theorem isSome_hexValue?_of_mem {width n : Nat} {d : Char} (h : d ∈ hexDigits width n) :
    (hexValue? d).isSome = true := by
  induction width generalizing n with
  | zero => cases h
  | succ width ih =>
    rcases List.mem_append.1 h with h | h
    · exact ih h
    · rw [List.mem_singleton.1 h, hexValue?_hexDigit _ (Nat.mod_lt n (by decide))]
      rfl

/-- What holds a character is the same from both ends. -/
theorem reverse_hold (c : Char) : (hold c).reverse = hold c := by
  rw [hold]
  split <;> rfl

/-- A character of another kind is held by itself. -/
theorem hold_eq {c : Char} (h : isReserved c = false) : hold c = [c] := by
  rw [hold, h]
  rfl

/-- The numbers of characters are bounded. -/
theorem toNat_lt (c : Char) : c.toNat < 0x110000 := by
  have valid := c.valid
  simp only [UInt32.isValidChar, Nat.isValidChar] at valid
  simp only [Char.toNat]
  omega

/-- The code points of a text are those of its characters. -/
theorem codes_flatMap_hold (cs : List Char) : codes (cs.flatMap hold) = cs.map Char.toNat := by
  have code : ∀ n ∈ cs.map Char.toNat, isCode n := by
    intro n hn
    obtain ⟨c, -, rfl⟩ := List.mem_map.1 hn
    exact decide_eq_true (toNat_lt c)
  rw [← codes_flatMap_ofCode code, List.flatMap_map]
  simp only [ofCode_toNat]

end Text

open Text Value

namespace Message

section Tokens

variable {cs cs' read rest : List Char} {ts ts' done done' : List Token} {t : Token}
  {state state' : Scanning} {c : Char} {n : Nat}

/-- The walk goes on from where a character leads. -/
theorem tokens_cons (h : advance c done state = some (state', done')) :
    tokens done state (c :: rest) = tokens done' state' rest := by
  rw [tokens, h]
  rfl

/-! ## What is read as tokens -/

/-- Whether a word may end before some text. -/
def Ends (rest : List Char) : Prop := ∀ c ∈ rest.head?, endsWord c = true

/-- Whether characters are read as tokens at a place where a token may begin, whatever was read
before and whatever comes behind at which a word may end. -/
def AreReadAs (cs : List Char) (ts : List Token) : Prop :=
  ∀ (done : List Token) (rest : List Char), Ends rest →
    tokens done .between (cs ++ rest) = tokens (ts.reverse ++ done) .between rest

/-- A text that begins with a character that ends words is one before which a word may end. -/
theorem ends_cons (h : endsWord c = true) (rest : List Char) : Ends (c :: rest) := by
  rintro d ⟨⟩
  exact h

/-- A word may end where a single character is a token. -/
theorem endsWord_of_ofChar? (h : Token.ofChar? c = some t) : endsWord c = true := by
  rw [endsWord, h]
  rfl

/-- What begins with a character that is a token is read as this and what the rest is read as. -/
theorem AreReadAs.cons (h : Token.ofChar? c = some t) (behind : AreReadAs cs ts) :
    AreReadAs (c :: cs) (t :: ts) := by
  intro done rest ends
  have step : advance c done .between = some (.between, t :: done) := by
    rw [advance, begin, h]
  rw [List.cons_append, tokens_cons step, behind _ rest ends, List.reverse_cons,
    List.append_assoc, List.singleton_append]

/-- Nothing is read as nothing. -/
theorem areReadAs_nil : AreReadAs [] [] := fun _ _ _ => rfl

/-- A space in front adds nothing. -/
theorem AreReadAs.space (h : AreReadAs cs ts) : AreReadAs (' ' :: cs) ts := by
  intro done rest ends
  have step : advance ' ' done .between = some (.between, done) := rfl
  rw [List.cons_append, tokens_cons step, h _ rest ends]

/-- Behind what is read as some tokens comes what is read as others, if a word may end between. -/
theorem AreReadAs.append (h : AreReadAs cs ts) (h' : AreReadAs cs' ts')
    (apart : ∀ rest, Ends rest → Ends (cs' ++ rest)) : AreReadAs (cs ++ cs') (ts ++ ts') := by
  intro done rest ends
  rw [List.append_assoc, h _ _ (apart rest ends), h' _ _ ends, List.reverse_append,
    List.append_assoc]

/-- What is read as some tokens may be followed by a character that is a token. -/
theorem AreReadAs.append_cons (h : AreReadAs cs ts) (token : Token.ofChar? c = some t)
    (behind : AreReadAs cs' ts') : AreReadAs (cs ++ c :: cs') (ts ++ t :: ts') :=
  h.append (.cons token behind) fun _ _ => ends_cons (endsWord_of_ofChar? token) _

/-! ## Words -/

/-- A word is taken up to where it ends. -/
theorem tokens_word (letters : ∀ c ∈ cs, isWordChar c = true) (ends : Ends rest) :
    tokens done (.word read) (cs ++ rest) =
      tokens (.word (read.reverse ++ cs) :: done) .between rest := by
  induction cs generalizing read with
  | nil =>
    rw [List.nil_append, List.append_nil]
    cases rest with
    | nil => rfl
    | cons c rest =>
      have last : advance c done (.word read) =
          advance c (.word read.reverse :: done) .between := if_pos (ends c rfl)
      rw [tokens, tokens, last]
  | cons c cs ih =>
    have letter := letters c List.mem_cons_self
    rw [isWordChar, Bool.and_eq_true, Bool.not_eq_true', ← Bool.not_eq_true] at letter
    have more : advance c done (.word read) = some (.word (c :: read), done) :=
      if_neg letter.1
    rw [List.cons_append, tokens_cons more, ih fun d hd => letters d (List.mem_cons_of_mem c hd),
      List.reverse_cons, List.append_assoc, List.singleton_append]

/-- A word is read as one token. -/
theorem areReadAs_word (present : cs ≠ []) (letters : ∀ c ∈ cs, isWordChar c = true) :
    AreReadAs cs [.word cs] := by
  intro done rest ends
  cases cs with
  | nil => exact absurd rfl present
  | cons c cs =>
    have letter := letters c List.mem_cons_self
    simp only [isWordChar, endsWord, Bool.and_eq_true, Bool.not_eq_true', Bool.or_eq_false_iff,
      bne_iff_ne, Option.isSome_eq_false_iff, Option.isNone_iff_eq_none] at letter
    obtain ⟨⟨noToken, noSpacing⟩, noQuote⟩ := letter
    have first : advance c done .between = some (.word [c], done) := by
      simp [advance, begin, noToken, noSpacing, noQuote]
    rw [List.cons_append, tokens_cons first,
      tokens_word (fun d hd => letters d (List.mem_cons_of_mem c hd)) ends]
    rfl

/-! ## Quoted texts -/

/-- The digits of an escape are taken up to the fourth, and then the code point is added. -/
theorem tokens_code {ds digits : List Char} (hex : ∀ d ∈ ds, (hexValue? d).isSome = true)
    (present : ds ≠ []) (four : digits.length + ds.length = 4)
    (value : ofHex? (digits.reverse ++ ds) = some n) :
    tokens done (.code read digits) (ds ++ rest) = tokens done (.quoted (addCode n read)) rest := by
  induction ds generalizing digits with
  | nil => exact absurd rfl present
  | cons d ds ih =>
    have digit : ¬ (hexValue? d).isNone = true := by
      rw [← Option.not_isSome, Bool.not_eq_true', Bool.not_eq_false]
      exact hex d List.mem_cons_self
    cases ds with
    | nil =>
      have last : advance d done (.code read digits) = some (.quoted (addCode n read), done) := by
        have full : ¬ digits.length < 3 := by
          rw [List.length_singleton] at four
          omega
        rw [advance, if_neg digit, if_neg full, List.reverse_cons, value]
        rfl
      exact tokens_cons last
    | cons d' ds =>
      have more : advance d done (.code read digits) = some (.code read (d :: digits), done) := by
        have room : digits.length < 3 := by
          rw [List.length_cons, List.length_cons] at four
          omega
        rw [advance, if_neg digit, if_pos room]
      rw [List.cons_append, tokens_cons more]
      refine ih (fun e he => hex e (List.mem_cons_of_mem d he)) (List.cons_ne_nil _ _) ?_ ?_
      · rw [List.length_cons] at four ⊢
        omega
      · rw [List.reverse_cons, List.append_assoc]
        exact value

/-- A code unit is read from its escape. -/
theorem tokens_unitEscape (small : n < 0x10000) :
    tokens done (.quoted read) (unitEscape n ++ rest) =
      tokens done (.quoted (addCode n read)) rest := by
  have slash : advance backslash done (.quoted read) = some (.escape read, done) := rfl
  have letter : advance 'u' done (.escape read) = some (.code read [], done) := rfl
  rw [unitEscape, List.cons_append, List.cons_append, tokens_cons slash, tokens_cons letter]
  refine tokens_code (fun d => isSome_hexValue?_of_mem) ?_ ?_ ?_
  · rw [ne_eq, ← List.length_eq_zero_iff, length_hexDigits]
    decide
  · rw [length_hexDigits]
    rfl
  · rw [List.reverse_nil, List.nil_append, ofHex?_hexDigits]
    exact congrArg some (Nat.mod_eq_of_lt small)

/-- A code point that is no second half of a pair is added by itself. -/
theorem addCode_of_not_low (h : ¬ (0xdc00 ≤ n ∧ n < 0xe000)) (read : List Char) :
    addCode n read = ofCode n ++ read := by
  cases read with
  | nil => rw [addCode, List.append_nil]
  | cons c read =>
    have apart : pair? (codeOf [c]) n = none := if_neg fun pair => h pair.2.2
    rw [addCode, apart]

/-- A character beyond the basic plane is put together from the two halves of its pair. -/
theorem addCode_pair (large : 0x10000 ≤ c.toNat) (read : List Char) :
    addCode (0xdc00 + (c.toNat - 0x10000) % 0x400)
      (addCode (0xd800 + (c.toNat - 0x10000) / 0x400) read) = hold c ++ read := by
  have small := toNat_lt c
  generalize place : c.toNat - 0x10000 = p
  have high : 0xd800 + p / 0x400 < 0xdc00 := by omega
  have half : isHalfCode (0xd800 + p / 0x400) = true := by
    simp only [isHalfCode, Bool.and_eq_true, decide_eq_true_eq]
    omega
  have held : ofCode (0xd800 + p / 0x400) =
      [Char.ofNat (halfDistance + (0xd800 + p / 0x400))] := if_pos half
  have first : codeOf [Char.ofNat (halfDistance + (0xd800 + p / 0x400))] = 0xd800 + p / 0x400 := by
    rw [← held, codeOf_ofCode]
    simp only [isCode, decide_eq_true_eq]
    omega
  have joined : pair? (0xd800 + p / 0x400) (0xdc00 + p % 0x400) = some c := by
    have whole : 0x10000 + (0xd800 + p / 0x400 - 0xd800) * 0x400 +
        (0xdc00 + p % 0x400 - 0xdc00) = c.toNat := by omega
    rw [pair?, if_pos (by omega), whole, Char.ofNat_toNat]
  have before := addCode_of_not_low (n := 0xd800 + p / 0x400) (by omega) read
  rw [before, held, List.singleton_append, addCode, first, joined]

/-- A character is read from its escapes. -/
theorem tokens_codeEscapes (c : Char) (done : List Token) (read rest : List Char) :
    tokens done (.quoted read) (codeEscapes c.toNat ++ rest) =
      tokens done (.quoted (hold c ++ read)) rest := by
  rw [codeEscapes]
  split
  · next small =>
    have whole := isHalfCode_toNat c
    simp only [isHalfCode, Bool.and_eq_false_iff, decide_eq_false_iff_not] at whole
    rw [tokens_unitEscape small, addCode_of_not_low (by omega), ofCode_toNat]
  · next large =>
    have small := toNat_lt c
    rw [List.append_assoc, tokens_unitEscape (by omega), tokens_unitEscape (by omega),
      addCode_pair (by omega)]

/-- A character is read from how it stands inside a canonical text. -/
theorem tokens_canonicalCode (c : Char) (done : List Token) (read rest : List Char) :
    tokens done (.quoted read) (canonicalCode c.toNat ++ rest) =
      tokens done (.quoted (hold c ++ read)) rest := by
  have slash : advance backslash done (.quoted read) = some (.escape read, done) := rfl
  -- An escape of one letter stands for a character that is held by itself.
  have letter : ∀ d meant, d ≠ 'u' → letterEscape? d = some meant → isReserved meant = false →
      tokens done (.quoted read) ([backslash, d] ++ rest) =
        tokens done (.quoted (hold meant ++ read)) rest := by
    intro d meant other known alone
    have step : advance d done (.escape read) = some (.quoted (meant :: read), done) := by
      rw [advance, if_neg other, known]
      rfl
    rw [List.cons_append, List.singleton_append, tokens_cons slash, tokens_cons step,
      hold_eq alone]
    rfl
  rw [canonicalCode, Char.ofNat_toNat]
  split_ifs with quote line back tab form rub printable
  · obtain rfl | rfl := quote
    · exact letter _ _ (by decide) rfl rfl
    · exact letter _ _ (by decide) rfl rfl
  · exact line ▸ letter _ _ (by decide) rfl rfl
  · exact back ▸ letter _ _ (by decide) rfl rfl
  · exact tab ▸ letter _ _ (by decide) rfl rfl
  · exact form ▸ letter _ _ (by decide) rfl rfl
  · exact rub ▸ letter _ _ (by decide) rfl rfl
  · rw [not_or] at quote
    have itself : advance c done (.quoted read) = some (.quoted (hold c ++ read), done) := by
      rw [advance, if_neg quote.1, if_neg quote.2, if_neg (by omega)]
    exact tokens_cons itself
  · exact tokens_codeEscapes c done read rest

/-- The characters of a text are read one after the other. -/
theorem tokens_flatMap_canonicalCode (cs : List Char) (done : List Token) (read rest : List Char) :
    tokens done (.quoted read) ((cs.map Char.toNat).flatMap canonicalCode ++ rest) =
      tokens done (.quoted ((cs.flatMap hold).reverse ++ read)) rest := by
  induction cs generalizing read with
  | nil => rfl
  | cons c cs ih =>
    rw [List.map_cons, List.flatMap_cons, List.append_assoc, tokens_canonicalCode, ih,
      List.flatMap_cons, List.reverse_append, reverse_hold, List.append_assoc]

/-- A text inside a canonical text is read as one token. -/
theorem areReadAs_canonicalText {s : String} (h : HoldsCharacters s) :
    AreReadAs (canonicalText s) [.text s.toList] := by
  obtain ⟨cs, held⟩ := h
  intro done rest _
  have opening : advance doubleQuote done .between = some (.quoted [], done) := rfl
  have closing : advance doubleQuote done (.quoted (cs.flatMap hold).reverse) =
      some (.between, .text (cs.flatMap hold) :: done) := by
    rw [advance, if_pos rfl, List.reverse_reverse]
  rw [canonicalText, held, codes_flatMap_hold, List.cons_append, tokens_cons opening,
    List.append_assoc, tokens_flatMap_canonicalCode, List.append_nil, List.singleton_append,
    tokens_cons closing]
  rfl

end Tokens

/-! ## Values -/

mutual

/-- The tokens of a value. -/
def tokensOf (v : Value) : List Token :=
  match v with
  | .text s => [.text s.toList]
  | .list items => .openList :: ([.comma].intercalate (itemTokens items) ++ [.closeList])
  | .mapping es => .openMapping :: ([.comma].intercalate (entryTokens es) ++ [.closeMapping])
  | v => [.word v.canonicalChars]
termination_by structural v

/-- The tokens of the items of a list. -/
def itemTokens (vs : List Value) : List (List Token) :=
  match vs with
  | [] => []
  | v :: vs => tokensOf v :: itemTokens vs
termination_by structural vs

/-- The tokens of the entries of a mapping. -/
def entryTokens (es : List (String × Value)) : List (List Token) :=
  match es with
  | [] => []
  | (k, v) :: es => (.text k.toList :: .colon :: tokensOf v) :: entryTokens es
termination_by structural es

end

/-- The tokens of items are those of one after the other. -/
theorem itemTokens_eq_map (vs : List Value) : itemTokens vs = vs.map tokensOf := by
  induction vs with
  | nil => rfl
  | cons v vs ih => rw [itemTokens, ih, List.map_cons]

/-- The tokens of an entry. -/
def tokensOfEntry (e : String × Value) : List Token := .text e.1.toList :: .colon :: tokensOf e.2

/-- The tokens of entries are those of one after the other. -/
theorem entryTokens_eq_map (es : Entries) : entryTokens es = es.map tokensOfEntry := by
  induction es with
  | nil => rfl
  | cons e es ih => rw [entryTokens, ih, List.map_cons, tokensOfEntry]

/-- Parts with commas between them and a closing character behind are read one after the other. -/
theorem areReadAs_commaSeparated {parts : List (List Char)} {tss : List (List Token)} {c : Char}
    {t : Token} (parts_read : List.Forall₂ AreReadAs parts tss) (token : Token.ofChar? c = some t) :
    AreReadAs (commaSeparated parts ++ [c]) ([Token.comma].intercalate tss ++ [t]) := by
  have closing : AreReadAs [c] [t] := .cons token areReadAs_nil
  induction parts_read with
  | nil => exact closing
  | cons part rest ih =>
    cases rest with
    | nil =>
      rw [commaSeparated, List.intercalate_singleton, List.intercalate_singleton]
      exact part.append_cons token areReadAs_nil
    | cons part' rest =>
      rw [commaSeparated, List.intercalate_cons_cons, List.intercalate_cons_cons]
      simp only [List.append_assoc]
      exact part.append_cons rfl ih.space

/-- The canonical text of a simple value is a word for it, unless the value is a text. -/
theorem isWordOf_canonicalChars {v : Value} (simple : v.isSimple = true)
    (other : v.isText = false) : IsWordOf v.canonicalChars v := by
  cases v with
  | null => exact isWordOf_named _ (List.mem_of_getElem? (i := 0) rfl)
  | bool b =>
    cases b
    · exact isWordOf_named _ (List.mem_of_getElem? (i := 2) rfl)
    · exact isWordOf_named _ (List.mem_of_getElem? (i := 1) rfl)
  | int n => exact isWordOf_int n
  | float x => exact isWordOf_float x
  | text s => cases other
  | list items => cases simple
  | mapping es => cases simple

/-- A word for a value is read as one token. -/
theorem IsWordOf.areReadAs {cs : List Char} {v : Value} (h : IsWordOf cs v) :
    AreReadAs cs [.word cs] :=
  areReadAs_word h.ne_nil h.letters

/-- The canonical text of a value is read as the tokens of the value with its entries in ascending
order. -/
theorem areReadAs_canonicalChars {v : Value} (h : v.IsMadeOf HoldsCharacters) :
    AreReadAs v.canonicalChars (tokensOf v.sorted) := by
  induction h with
  | null => exact (isWordOf_canonicalChars rfl rfl).areReadAs
  | bool b => exact (isWordOf_canonicalChars rfl rfl).areReadAs
  | int n => exact (isWordOf_canonicalChars rfl rfl).areReadAs
  | float x => exact (isWordOf_canonicalChars rfl rfl).areReadAs
  | text held => exact areReadAs_canonicalText held
  | @list items _ ih =>
    rw [canonicalChars, sorted, tokensOf, canonicalItems_eq_map, sortedItems_eq_map,
      itemTokens_eq_map, List.map_map]
    refine .cons rfl (areReadAs_commaSeparated ?_ rfl)
    exact List.forall₂_map_left_iff.2 (List.forall₂_map_right_iff.2 (List.forall₂_same.2 ih))
  | @mapping es _ held _ ih =>
    rw [canonicalChars, sorted, tokensOf, canonicalEntries_eq_map, sortedEntries_eq_map,
      entryTokens_eq_map]
    have sorted_texts : sortByKey (es.map fun e => (e.1, e.2.canonicalChars)) =
        (es.mergeSort keyNotAfter).map fun e => (e.1, e.2.canonicalChars) :=
      (map_mergeSort_keyNotAfter canonicalChars es).symm
    rw [sorted_texts, ← map_mergeSort_keyNotAfter sorted es, List.map_map, List.map_map]
    refine .cons rfl (areReadAs_commaSeparated ?_ rfl)
    refine List.forall₂_map_left_iff.2 (List.forall₂_map_right_iff.2 (List.forall₂_same.2 ?_))
    intro e he
    have he := (List.mergeSort_perm es keyNotAfter).mem_iff.1 he
    exact (areReadAs_canonicalText (held e he)).append_cons rfl (ih e he).space

end Message

end Bindery
