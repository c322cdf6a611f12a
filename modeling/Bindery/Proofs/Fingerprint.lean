import Bindery.Config.Defaults
import Bindery.Proofs.Tokens

/-!
# Fingerprints

A configuration is fingerprinted by its canonical text, and the text identifies the configuration up
to the order of entries. For a canonical text is a message, and read as one it gives the value back
with all its entries in ascending order: the tokens are those of the value, and what they are put
together to is the value. Main statements: `ofMessage?_canonical`, `canonical_eq_iff`.
-/

namespace Bindery

open Text Value

namespace Message

variable {frames frames' : List Frame} {expecting expecting' : Expecting} {t : Token}
  {ts rest : List Token} {v : Value}

/-! ## Arrangement -/

/-- The arrangement goes on from where a token leads. -/
theorem arrange_cons (h : place frames t expecting = some (frames', expecting')) :
    arrange frames expecting (t :: rest) = arrange frames' expecting' rest := by
  rw [arrange, h]
  rfl

/-- Whether tokens are put together to a value wherever there may be one. -/
def AmountTo (ts : List Token) (v : Value) : Prop :=
  ∀ (frames : List Frame) (isFresh : Bool) (rest : List Token),
    arrange frames (.value isFresh) (ts ++ rest) = arrange frames (.next v) rest

/-- A word amounts to what it stands for. -/
theorem IsWordOf.amountTo {cs : List Char} (h : IsWordOf cs v) : AmountTo [.word cs] v := by
  intro frames isFresh rest
  have step : place frames (.word cs) (.value isFresh) = some (frames, .next v) := by
    rw [place, h.value]
    rfl
  exact arrange_cons step

/-- The items of a list are put together behind those that were there before. -/
theorem arrange_items {vs : List Value} (present : vs ≠ [])
    (each : ∀ v ∈ vs, AmountTo (tokensOf v) v) (before : List Value) (isFresh : Bool) :
    arrange (.list before :: frames) (.value isFresh)
        ([.comma].intercalate (vs.map tokensOf) ++ .closeList :: rest) =
      arrange frames (.next (.list (before.reverse ++ vs))) rest := by
  induction vs generalizing before isFresh with
  | nil => exact absurd rfl present
  | cons v vs ih =>
    have part := each v List.mem_cons_self
    cases vs with
    | nil =>
      have last : place (.list before :: frames) .closeList (.next v) =
          some (frames, .next (.list (before.reverse ++ [v]))) := by
        rw [place, List.reverse_cons]
      rw [List.map_singleton, List.intercalate_singleton, part, arrange_cons last]
    | cons w vs =>
      have more : place (.list before :: frames) .comma (.next v) =
          some (.list (v :: before) :: frames, .value false) := rfl
      rw [List.map_cons, List.map_cons, List.intercalate_cons_cons, List.append_assoc,
        List.append_assoc, part, List.singleton_append, arrange_cons more, ← List.map_cons,
        ih (List.cons_ne_nil w vs) (fun u hu => each u (List.mem_cons_of_mem v hu)),
        List.reverse_cons, List.append_assoc, List.singleton_append]

/-- An entry under a new key comes behind the others. -/
theorem put_of_notMem {key : String} {es : Entries} (new : key ∉ es.map Prod.fst) (v : Value) :
    es.put key v = es ++ [(key, v)] := by
  induction es with
  | nil => rfl
  | cons e es ih =>
    rw [List.map_cons, List.mem_cons, not_or] at new
    rw [Entries.put, if_neg (Ne.symm new.1), ih new.2]
    rfl

/-- The tokens of an entry lead to its value, the key being kept. -/
theorem arrange_entry {e : String × Value} (part : AmountTo (tokensOf e.2) e.2) (es : Entries)
    (isFresh : Bool) : arrange frames (.key es isFresh) (tokensOfEntry e ++ rest) =
      arrange (.mapping es e.1 :: frames) (.next e.2) rest := by
  have key : place frames (.text e.1.toList) (.key es isFresh) =
      some (frames, .colon es e.1) := by
    rw [place, String.ofList_toList]
  have colon : place frames .colon (.colon es e.1) =
      some (.mapping es e.1 :: frames, .value false) := rfl
  rw [tokensOfEntry, List.cons_append, arrange_cons key, List.cons_append, arrange_cons colon, part]

/-- The entries of a mapping are put together behind those that were there before, if no key comes
twice. -/
theorem arrange_entries {es : Entries} (present : es ≠ [])
    (each : ∀ e ∈ es, AmountTo (tokensOf e.2) e.2) (before : Entries) (isFresh : Bool)
    (distinct : ((before ++ es).map Prod.fst).Nodup) :
    arrange frames (.key before isFresh)
        ([.comma].intercalate (es.map tokensOfEntry) ++ .closeMapping :: rest) =
      arrange frames (.next (.mapping (before ++ es))) rest := by
  induction es generalizing before isFresh with
  | nil => exact absurd rfl present
  | cons e es ih =>
    have part := each e List.mem_cons_self
    have new : before.put e.1 e.2 = before ++ [e] := by
      rw [List.map_append, List.map_cons, List.nodup_middle, List.nodup_cons,
        List.mem_append, not_or] at distinct
      exact put_of_notMem distinct.1.1 e.2
    cases es with
    | nil =>
      have last : place (.mapping before e.1 :: frames) .closeMapping (.next e.2) =
          some (frames, .next (.mapping (before ++ [e]))) := by
        rw [place, new]
      rw [List.map_singleton, List.intercalate_singleton, arrange_entry part, arrange_cons last]
    | cons f es =>
      have more : place (.mapping before e.1 :: frames) .comma (.next e.2) =
          some (frames, .key (before ++ [e]) false) := by
        rw [place, new]
      rw [List.append_cons] at distinct
      rw [List.map_cons, List.map_cons, List.intercalate_cons_cons, List.append_assoc,
        List.append_assoc, arrange_entry part, List.singleton_append, arrange_cons more,
        ← List.map_cons, ih (List.cons_ne_nil f es)
          (fun g hg => each g (List.mem_cons_of_mem e hg)) _ _ distinct, ← List.append_cons]

/-- The tokens of a value are put together to it. -/
theorem amountTo_tokensOf {kind : String → Prop} (h : v.IsMadeOf kind) :
    AmountTo (tokensOf v) v := by
  induction h with
  | null => exact (isWordOf_canonicalChars rfl rfl).amountTo
  | bool b => exact (isWordOf_canonicalChars rfl rfl).amountTo
  | int n => exact (isWordOf_canonicalChars rfl rfl).amountTo
  | float x => exact (isWordOf_canonicalChars rfl rfl).amountTo
  | @text s _ =>
    intro frames isFresh rest
    have step : place frames (.text s.toList) (.value isFresh) =
        some (frames, .next (.text s)) := by
      rw [place, String.ofList_toList]
    exact arrange_cons step
  | @list items _ ih =>
    intro frames isFresh rest
    have opening : place frames .openList (.value isFresh) =
        some (.list [] :: frames, .value true) := rfl
    rw [tokensOf, List.cons_append, arrange_cons opening, itemTokens_eq_map, List.append_assoc,
      List.singleton_append]
    by_cases present : items = []
    · subst present
      exact arrange_cons rfl
    · exact arrange_items present ih [] true
  | @mapping es distinct _ _ ih =>
    intro frames isFresh rest
    have opening : place frames .openMapping (.value isFresh) =
        some (frames, .key [] true) := rfl
    rw [tokensOf, List.cons_append, arrange_cons opening, entryTokens_eq_map, List.append_assoc,
      List.singleton_append]
    by_cases present : es = []
    · subst present
      exact arrange_cons rfl
    · exact arrange_entries present ih [] true distinct

end Message

open Message

namespace Value

/-- A canonical text is read back as the value with its entries in ascending order. -/
theorem ofMessage?_canonical {v : Value} (h : v.IsMadeOf HoldsCharacters) :
    Value.ofMessage? v.canonical = some v.sorted := by
  have nothing : Ends [] := nofun
  have read := areReadAs_canonicalChars h [] [] nothing
  have arranged := amountTo_tokensOf h.sorted [] false []
  rw [List.append_nil, List.append_nil, tokens, List.reverse_reverse] at read
  rw [List.append_nil] at arranged
  rw [ofMessage?, canonical, String.toList_ofList, read]
  exact arranged

/-- The canonical text identifies a value up to the order of entries: two values have one canonical
text just if they differ at most in the order in which mappings list their entries, at any depth.
Numbers written with a point or an exponent are other values than whole numbers, and zero with a
minus sign is another value than zero. -/
theorem canonical_eq_iff {v w : Value} (hv : v.IsMadeOf HoldsCharacters)
    (hw : w.IsMadeOf HoldsCharacters) : v.canonical = w.canonical ↔ Reordered v w := by
  have hv' := hv.imp fun _ => HoldsCharacters.holdsCodes
  have hw' := hw.imp fun _ => HoldsCharacters.holdsCodes
  refine ⟨fun same => (sorted_eq_iff hv' hw').1 (Option.some.inj ?_), fun h =>
    h.canonical_eq hv' hw'⟩
  calc some v.sorted
    _ = ofMessage? v.canonical := (ofMessage?_canonical hv).symm
    _ = ofMessage? w.canonical := by rw [same]
    _ = some w.sorted := ofMessage?_canonical hw

/-- Entries with escapes in them are listed in two orders; a whole number and the same one with a
point are told apart. -/
theorem canonical_eq_iff_sample :
    let v := list [mapping [("path", text "C:\\Qt\n"), ("\x22é😀\x22", null)], int 0]
    let w := list [mapping [("\x22é😀\x22", null), ("path", text "C:\\Qt\n")], int 0]
    let whole := list [int 0, text "é😀"]
    let pointed := list [float (.ofRank false 0), text "é😀"]
    (∀ u ∈ [v, w, whole, pointed], u.IsMadeOf HoldsCharacters) ∧
      v.canonical = w.canonical ∧ ¬ Reordered whole pointed := by
  intro v w whole pointed
  have plain : ∀ u ∈ [v, w, whole, pointed], u.IsMadeOf IsPlain := by decide +kernel
  have held := fun u hu => (plain u hu).imp fun _ => IsPlain.holdsCharacters
  refine ⟨held, ?_⟩
  simp only [List.forall_mem_cons] at held
  obtain ⟨hv, hw, whole_held, pointed_held, -⟩ := held
  have listed : Reordered v w := reordered_list_iff.2
    (.cons (reordered_of_perm (by decide) (.swap _ _ [])) (.cons (.same _) .nil))
  have apart : whole.canonical ≠ pointed.canonical := by decide +kernel
  exact ⟨(canonical_eq_iff hv hw).2 listed, mt (canonical_eq_iff whole_held pointed_held).2 apart⟩

end Value

end Bindery
