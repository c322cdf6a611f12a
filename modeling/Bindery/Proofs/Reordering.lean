import Bindery.Proofs.Collation
import Bindery.Proofs.Comparison
import Bindery.Value.Canonical

/-!
# Values up to the order of entries

The order in which a mapping lists its entries says nothing. So values are the same for all purposes
if they differ in this order only, at any depth; and this is the case just if they become equal when
the entries of every mapping are sorted. A canonical text does not tell a value from what it becomes
when sorted. Main statements: `sorted_eq_iff`, `canonicalChars_sorted`.
-/

namespace Bindery

open Text

namespace Value

/-- Rows of entries that differ in their order only agree on what is found in them. -/
theorem lookup_of_perm {β : Type} {es fs : List (String × β)} (distinct : (es.map Prod.fst).Nodup)
    (perm : es.Perm fs) (key : String) : es.lookup key = fs.lookup key := by
  have distinct' := (perm.map Prod.fst).nodup_iff.1 distinct
  ext b
  constructor
  · exact fun h => lookup_of_mem distinct' (perm.mem_iff.1 (mem_of_lookup h))
  · exact fun h => lookup_of_mem distinct (perm.mem_iff.2 (mem_of_lookup h))

/-! ## Induction -/

/-- A property of all values, by its items for lists and by its entries for mappings. -/
@[elab_as_elim]
theorem parts_induction {motive : Value → Prop}
    (leaf : ∀ v : Value, (∀ items, v ≠ list items) → (∀ es, v ≠ mapping es) → motive v)
    (list : ∀ items : List Value, (∀ v ∈ items, motive v) → motive (list items))
    (mapping : ∀ es : Entries, (∀ e ∈ es, motive e.2) → motive (mapping es)) (v : Value) :
    motive v := by
  match v with
  | .null | .bool _ | .int _ | .float _ | .text _ => exact leaf _ nofun nofun
  | .list items => exact list items fun v _ => parts_induction leaf list mapping v
  | .mapping es => exact mapping es fun e _ => parts_induction leaf list mapping e.2
termination_by sizeOf v
decreasing_by
  · have := List.sizeOf_lt_of_mem ‹v ∈ items›
    simp only [Value.list.sizeOf_spec]
    omega
  · have := List.sizeOf_lt_of_mem ‹e ∈ es›
    obtain ⟨key, part⟩ := e
    simp only [Value.mapping.sizeOf_spec, Prod.mk.sizeOf_spec] at this ⊢
    omega

/-! ## Well-formed values -/

/-- A value as it comes from a document: every mapping has one entry for each key, and all texts,
keys among them, are of some kind. -/
inductive IsMadeOf (kind : String → Prop) : Value → Prop
  /-- The absent value. -/
  | null : IsMadeOf kind null
  /-- A truth value. -/
  | bool (b : Bool) : IsMadeOf kind (bool b)
  /-- A whole number. -/
  | int (n : Int) : IsMadeOf kind (int n)
  /-- A number with a point or an exponent. -/
  | float (x : Binary64) : IsMadeOf kind (float x)
  /-- A text of the kind. -/
  | text {s : String} (h : kind s) : IsMadeOf kind (text s)
  /-- A list of such values. -/
  | list {items : List Value} (each : ∀ v ∈ items, IsMadeOf kind v) : IsMadeOf kind (list items)
  /-- Such values under keys of the kind, each of them once. -/
  | mapping {es : Entries} (distinct : (es.map Prod.fst).Nodup) (keys : ∀ e ∈ es, kind e.1)
    (each : ∀ e ∈ es, IsMadeOf kind e.2) : IsMadeOf kind (mapping es)

section IsMadeOf

variable {kind kind' : String → Prop} {v : Value} {items : List Value} {es : Entries}

/-- The items of a list are as the list is. -/
theorem IsMadeOf.of_mem (h : (Value.list items).IsMadeOf kind) (hv : v ∈ items) :
    v.IsMadeOf kind := by
  cases h with
  | list each => exact each v hv

/-- No key of a mapping has two entries. -/
theorem IsMadeOf.distinct (h : (Value.mapping es).IsMadeOf kind) : (es.map Prod.fst).Nodup := by
  cases h with
  | mapping distinct _ _ => exact distinct

/-- The keys of a mapping are of the kind. -/
theorem IsMadeOf.key (h : (Value.mapping es).IsMadeOf kind) {e : String × Value} (he : e ∈ es) :
    kind e.1 := by
  cases h with
  | mapping _ keys _ => exact keys e he

/-- The parts of a mapping are as the mapping is. -/
theorem IsMadeOf.part (h : (Value.mapping es).IsMadeOf kind) {e : String × Value} (he : e ∈ es) :
    e.2.IsMadeOf kind := by
  cases h with
  | mapping _ _ each => exact each e he

/-- What is found in a mapping is as the mapping is. -/
theorem IsMadeOf.of_lookup (h : (Value.mapping es).IsMadeOf kind) {key : String}
    (hv : es.lookup key = some v) : v.IsMadeOf kind :=
  h.part (mem_of_lookup hv)

/-- What is made of texts of one kind is made of texts of any wider kind. -/
theorem IsMadeOf.imp (h : v.IsMadeOf kind) (wider : ∀ s, kind s → kind' s) : v.IsMadeOf kind' := by
  induction h with
  | null => exact .null
  | bool b => exact .bool b
  | int n => exact .int n
  | float x => exact .float x
  | text h => exact .text (wider _ h)
  | list _ ih => exact .list ih
  | mapping distinct keys _ ih => exact .mapping distinct (fun e he => wider _ (keys e he)) ih

/-- A list of texts that hold code points is a row of texts. -/
theorem areTexts_of_isMadeOf (held : (list items).IsMadeOf HoldsCodes)
    (texts : ∀ v ∈ items, v.isText = true) : AreTexts items := by
  intro v hv
  obtain ⟨s, rfl⟩ := exists_eq_text (texts v hv)
  cases held.of_mem hv with
  | text hs => exact ⟨s, hs, rfl⟩

variable [DecidablePred kind]

mutual

/-- It can be decided whether a value is made of texts of a kind if this can be decided of texts. -/
def decideMadeOf (v : Value) : Decidable (v.IsMadeOf kind) :=
  match v with
  | .null => isTrue .null
  | .bool b => isTrue (.bool b)
  | .int n => isTrue (.int n)
  | .float x => isTrue (.float x)
  | .text _ => decidable_of_iff _ ⟨.text, fun | .text h => h⟩
  | .list items =>
    have := decideMadeOfItems items
    decidable_of_iff _ ⟨.list, fun | .list each => each⟩
  | .mapping es =>
    have := decideMadeOfEntries es
    decidable_of_iff ((es.map Prod.fst).Nodup ∧ (∀ e ∈ es, kind e.1) ∧
        ∀ e ∈ es, e.2.IsMadeOf kind)
      ⟨fun h => .mapping h.1 h.2.1 h.2.2,
        fun | .mapping distinct keys each => ⟨distinct, keys, each⟩⟩
termination_by structural v

/-- It can be decided for lists of values. -/
def decideMadeOfItems (vs : List Value) : Decidable (∀ v ∈ vs, v.IsMadeOf kind) :=
  match vs with
  | [] => isTrue nofun
  | v :: vs =>
    have := decideMadeOf v
    have := decideMadeOfItems vs
    decidable_of_iff _ List.forall_mem_cons.symm
termination_by structural vs

/-- It can be decided for the parts of mappings. -/
def decideMadeOfEntries (es : List (String × Value)) : Decidable (∀ e ∈ es, e.2.IsMadeOf kind) :=
  match es with
  | [] => isTrue nofun
  | (_, v) :: es =>
    have := decideMadeOf v
    have := decideMadeOfEntries es
    decidable_of_iff _ List.forall_mem_cons.symm
termination_by structural es

end

instance (v : Value) : Decidable (v.IsMadeOf kind) := decideMadeOf v

end IsMadeOf

/-! ## The same up to order -/

/-- Values that differ at most in the order in which mappings list their entries, at any depth. -/
inductive Reordered : Value → Value → Prop
  /-- The same value. -/
  | same (v : Value) : Reordered v v
  /-- Lists of as many items, which are the same up to order one by one. -/
  | list {xs ys : List Value} (length : xs.length = ys.length)
    (each : ∀ (i : Nat) (v w : Value), xs[i]? = some v → ys[i]? = some w → Reordered v w) :
    Reordered (list xs) (list ys)
  /-- Mappings with the same keys, under which there are values that are the same up to order. -/
  | mapping {es fs : Entries} (keys : ∀ key, es.lookup key = none ↔ fs.lookup key = none)
    (each : ∀ (key : String) (v w : Value), es.lookup key = some v → fs.lookup key = some w →
      Reordered v w) :
    Reordered (mapping es) (mapping fs)

section Reordered

variable {v w : Value} {xs ys : List Value}

/-- Lists are the same up to order if their items are, one by one. -/
theorem reordered_list_iff : Reordered (list xs) (list ys) ↔ List.Forall₂ Reordered xs ys := by
  constructor
  · intro h
    cases h with
    | same => exact List.forall₂_same.2 fun v _ => .same v
    | list length each =>
      exact List.forall₂_iff_get.2 ⟨length, fun i hi hi' =>
        each i _ _ (List.getElem?_eq_getElem hi) (List.getElem?_eq_getElem hi')⟩
  · intro h
    refine .list h.length_eq fun i v w hv hw => ?_
    obtain ⟨hi, rfl⟩ := List.getElem?_eq_some_iff.1 hv
    obtain ⟨hi', rfl⟩ := List.getElem?_eq_some_iff.1 hw
    exact h.get hi hi'

/-- Mappings are the same up to order if they list the same entries, each key once. -/
theorem reordered_of_perm {es fs : Entries} (distinct : (es.map Prod.fst).Nodup)
    (perm : es.Perm fs) : Reordered (mapping es) (mapping fs) := by
  have same := lookup_of_perm distinct perm
  refine .mapping (fun key => by rw [same key]) fun key v w found found' => ?_
  rw [same key, found'] at found
  exact Option.some.inj found ▸ .same w

/-- Simple values have no entries to reorder. -/
theorem Reordered.eq_of_isSimple (h : Reordered v w) (simple : v.isSimple = true) : v = w := by
  cases h with
  | same => rfl
  | list _ _ => cases simple
  | mapping _ _ => cases simple

/-- What is the same as a simple value up to order is simple. -/
theorem Reordered.isSimple_eq (h : Reordered v w) : v.isSimple = w.isSimple := by
  cases h <;> rfl

/-- What is the same as a text up to order is a text. -/
theorem Reordered.isText_eq (h : Reordered v w) : v.isText = w.isText := by
  cases h <;> rfl

/-- What is the same up to order is of the same kind. -/
theorem Reordered.kindWord_eq (h : Reordered v w) : v.kindWord = w.kindWord := by
  cases h <;> rfl

/-- What is the same as a mapping up to order is a mapping. -/
theorem Reordered.isMapping_eq (h : Reordered v w) : v.isMapping = w.isMapping := by
  cases h <;> rfl

/-- What is the same as a list up to order is a list. -/
theorem Reordered.exists_list (h : Reordered v (.list ys)) : ∃ xs, v = .list xs := by
  cases h with
  | same => exact ⟨ys, rfl⟩
  | list _ _ => exact ⟨_, rfl⟩

/-- A mapping has no entries just if nothing is found in it. -/
theorem isEmpty_iff_lookup {es : Entries} :
    es.isEmpty = true ↔ ∀ key, es.lookup key = none := by
  cases es with
  | nil => simp
  | cons e es =>
    refine ⟨nofun, fun h => ?_⟩
    have found := h e.1
    rw [List.lookup_cons, beq_self_eq_true] at found
    cases found

/-- Mappings with the same keys count as given alike. -/
theorem isGiven_mapping_eq {es fs : Entries}
    (keys : ∀ key, es.lookup key = none ↔ fs.lookup key = none) :
    (mapping es).isGiven = (mapping fs).isGiven := by
  rw [isGiven, isGiven, Bool.eq_iff_iff, Bool.not_eq_true', Bool.not_eq_true',
    ← Bool.not_eq_true, ← Bool.not_eq_true, not_iff_not, isEmpty_iff_lookup, isEmpty_iff_lookup]
  exact forall_congr' keys

/-- What is the same up to order counts as given if either does. -/
theorem Reordered.isGiven_eq (h : Reordered v w) : v.isGiven = w.isGiven := by
  cases h with
  | same => rfl
  | @list xs ys length _ => cases xs <;> cases ys <;> first | rfl | cases length
  | mapping keys _ => exact isGiven_mapping_eq keys

end Reordered

/-! ## Sorting -/

/-- Whether the first of two entries may stand before the second in ascending order. -/
def keyNotAfter {α : Type} (a b : String × α) : Bool := !precedes b.1 a.1

mutual

/-- The value with the entries of every mapping in ascending order of their keys. -/
def sorted (v : Value) : Value :=
  match v with
  | .list items => .list (sortedItems items)
  | .mapping es => .mapping ((sortedEntries es).mergeSort keyNotAfter)
  | v => v
termination_by structural v

/-- The items with the entries of every mapping in ascending order. -/
def sortedItems (vs : List Value) : List Value :=
  match vs with
  | [] => []
  | v :: vs => sorted v :: sortedItems vs
termination_by structural vs

/-- The entries with those of every mapping below in ascending order. -/
def sortedEntries (es : List (String × Value)) : List (String × Value) :=
  match es with
  | [] => []
  | (k, v) :: es => (k, sorted v) :: sortedEntries es
termination_by structural es

end

section Walks

variable (vs : List Value) (es : Entries)

/-- Items are sorted one by one. -/
theorem sortedItems_eq_map : sortedItems vs = vs.map sorted := by
  induction vs with
  | nil => rfl
  | cons v vs ih => rw [sortedItems, ih, List.map_cons]

/-- Entries are sorted one by one. -/
theorem sortedEntries_eq_map : sortedEntries es = es.map fun e => (e.1, e.2.sorted) := by
  induction es with
  | nil => rfl
  | cons e es ih => rw [sortedEntries, ih, List.map_cons]

/-- The canonical texts of items are those of one after the other. -/
theorem canonicalItems_eq_map : canonicalItems vs = vs.map canonicalChars := by
  induction vs with
  | nil => rfl
  | cons v vs ih => rw [canonicalItems, ih, List.map_cons]

/-- The canonical texts of entries are those of one after the other. -/
theorem canonicalEntries_eq_map :
    canonicalEntries es = es.map fun e => (e.1, e.2.canonicalChars) := by
  induction es with
  | nil => rfl
  | cons e es ih => rw [canonicalEntries, ih, List.map_cons]

end Walks

section KeyOrder

variable {α β : Type}

/-- The order of entries is one. -/
theorem keyNotAfter_trans (a b c : String × α) (h : keyNotAfter a b = true)
    (h' : keyNotAfter b c = true) : keyNotAfter a c = true :=
  not_precedes_trans h h'

/-- Any two entries can be put in order. -/
theorem keyNotAfter_total (a b : String × α) : (keyNotAfter a b || keyNotAfter b a) = true :=
  not_precedes_total a.1 b.1

/-- Sorted entries ascend. -/
theorem pairwise_keyNotAfter (es : List (String × α)) :
    (es.mergeSort keyNotAfter).Pairwise fun a b => keyNotAfter a b = true :=
  List.pairwise_mergeSort keyNotAfter_trans keyNotAfter_total es

/-- What is under the keys does not matter for their order. -/
theorem map_mergeSort_keyNotAfter (f : α → β) (es : List (String × α)) :
    (es.mergeSort keyNotAfter).map (fun e => (e.1, f e.2)) =
      (es.map fun e => (e.1, f e.2)).mergeSort keyNotAfter :=
  List.map_mergeSort fun _ _ _ _ => rfl

/-- Entries under the same keys, which hold code points, are sorted into one row whatever order they
come in. -/
theorem mergeSort_eq_of_perm {es fs : List (String × α)} (distinct : (es.map Prod.fst).Nodup)
    (held : ∀ e ∈ es, HoldsCodes e.1) (perm : es.Perm fs) :
    es.mergeSort keyNotAfter = fs.mergeSort keyNotAfter := by
  have perm' := (List.mergeSort_perm es keyNotAfter).trans
    (perm.trans (List.mergeSort_perm fs keyNotAfter).symm)
  refine perm'.eq_of_pairwise ?_ (pairwise_keyNotAfter es) (pairwise_keyNotAfter fs)
  intro a b ha hb before behind
  have ha := (List.mergeSort_perm es keyNotAfter).mem_iff.1 ha
  have hb := perm.mem_iff.2 ((List.mergeSort_perm fs keyNotAfter).mem_iff.1 hb)
  have key : a.1 = b.1 := eq_of_not_precedes (held a ha) (held b hb) before behind
  exact List.inj_on_of_nodup_map distinct ha hb key

end KeyOrder

/-- A canonical text does not tell a value from what it becomes when it is sorted. -/
theorem canonicalChars_sorted (v : Value) : v.sorted.canonicalChars = v.canonicalChars := by
  induction v using parts_induction with
  | leaf v noList noMapping =>
    cases v with
    | list items => exact absurd rfl (noList items)
    | mapping es => exact absurd rfl (noMapping es)
    | _ => rfl
  | list items ih =>
    have items_eq : canonicalItems (sortedItems items) = canonicalItems items := by
      rw [canonicalItems_eq_map, canonicalItems_eq_map, sortedItems_eq_map, List.map_map]
      exact List.map_congr_left ih
    rw [sorted, canonicalChars, canonicalChars, items_eq]
  | mapping es ih =>
    have entries_eq : canonicalEntries (sortedEntries es) = canonicalEntries es := by
      rw [canonicalEntries_eq_map, canonicalEntries_eq_map, sortedEntries_eq_map, List.map_map]
      exact List.map_congr_left fun e he => congrArg (Prod.mk e.1) (ih e he)
    -- Sorting once more what is sorted changes nothing.
    have again : sortByKey (canonicalEntries ((sortedEntries es).mergeSort keyNotAfter)) =
        sortByKey (canonicalEntries (sortedEntries es)) := by
      rw [canonicalEntries_eq_map, map_mergeSort_keyNotAfter, ← canonicalEntries_eq_map]
      exact List.mergeSort_of_pairwise (pairwise_keyNotAfter _)
    rw [sorted, canonicalChars, canonicalChars, again, entries_eq]

/-! ## Sorting decides -/

/-- What is found among sorted entries is what was found, sorted. -/
theorem lookup_sortedEntries (es : Entries) (key : String) :
    (sortedEntries es).lookup key = (es.lookup key).map sorted := by
  induction es with
  | nil => rfl
  | cons e es ih =>
    obtain ⟨k, v⟩ := e
    rw [sortedEntries, List.lookup_cons, List.lookup_cons, ih]
    split <;> rfl

/-- Sorting the parts of a mapping leaves its keys. -/
theorem map_fst_sortedEntries (es : Entries) :
    (sortedEntries es).map Prod.fst = es.map Prod.fst := by
  rw [sortedEntries_eq_map, List.map_map]
  rfl

/-- A sorted value is made of the same texts. -/
theorem IsMadeOf.sorted {kind : String → Prop} {v : Value} (h : v.IsMadeOf kind) :
    v.sorted.IsMadeOf kind := by
  induction h with
  | null => exact .null
  | bool b => exact .bool b
  | int n => exact .int n
  | float x => exact .float x
  | text held => exact .text held
  | list _ ih =>
    rw [Value.sorted, sortedItems_eq_map]
    exact .list (List.forall_mem_map.2 ih)
  | @mapping es distinct keys _ ih =>
    have perm := List.mergeSort_perm (sortedEntries es) keyNotAfter
    have parts : ∀ e ∈ (sortedEntries es).mergeSort keyNotAfter, kind e.1 ∧ e.2.IsMadeOf kind := by
      intro e he
      rw [perm.mem_iff, sortedEntries_eq_map] at he
      obtain ⟨part, hp, rfl⟩ := List.mem_map.1 he
      exact ⟨keys part hp, ih part hp⟩
    refine .mapping ?_ (fun e he => (parts e he).1) fun e he => (parts e he).2
    rw [(perm.map Prod.fst).nodup_iff, map_fst_sortedEntries]
    exact distinct

/-- Values that are the same up to order become equal when they are sorted. -/
theorem Reordered.sorted_eq {v w : Value} (h : Reordered v w) (hv : v.IsMadeOf HoldsCodes)
    (hw : w.IsMadeOf HoldsCodes) : v.sorted = w.sorted := by
  induction h with
  | same v => rfl
  | list length each ih =>
    rw [sorted, sorted, sortedItems_eq_map, sortedItems_eq_map]
    refine congrArg Value.list (List.ext_getElem (by simpa using length) fun i hi hi' => ?_)
    rw [List.length_map] at hi hi'
    rw [List.getElem_map, List.getElem_map]
    exact ih i _ _ (List.getElem?_eq_getElem hi) (List.getElem?_eq_getElem hi')
      (hv.of_mem (List.getElem_mem hi)) (hw.of_mem (List.getElem_mem hi'))
  | @mapping es fs keys each ih =>
    have same : ∀ key, (sortedEntries fs).lookup key = (sortedEntries es).lookup key := by
      intro key
      rw [lookup_sortedEntries, lookup_sortedEntries]
      cases found : es.lookup key with
      | none => rw [(keys key).1 found]
      | some v =>
        cases found' : fs.lookup key with
        | none => exact absurd ((keys key).2 found') (by simp [found])
        | some w =>
          exact congrArg some
            (ih key v w found found' (hv.of_lookup found) (hw.of_lookup found')).symm
    have distinct : ((sortedEntries es).map Prod.fst).Nodup := by
      rw [map_fst_sortedEntries]
      exact hv.distinct
    have distinct' : ((sortedEntries fs).map Prod.fst).Nodup := by
      rw [map_fst_sortedEntries]
      exact hw.distinct
    have held : ∀ e ∈ sortedEntries es, HoldsCodes e.1 := by
      rw [sortedEntries_eq_map]
      intro e he
      obtain ⟨part, hp, rfl⟩ := List.mem_map.1 he
      have key := hv.key hp
      exact key
    rw [sorted, sorted, mergeSort_eq_of_perm distinct held (perm_of_lookup distinct distinct' same)]

/-- What becomes a list when it is sorted is one. -/
theorem exists_of_sorted_list {w : Value} {items : List Value} (h : w.sorted = list items) :
    ∃ ys, w = list ys ∧ items = ys.map sorted := by
  cases w with
  | list ys =>
    rw [sorted, sortedItems_eq_map] at h
    exact ⟨ys, rfl, (Value.list.inj h).symm⟩
  | _ => cases h

/-- What becomes a mapping when it is sorted is one. -/
theorem exists_of_sorted_mapping {w : Value} {es : Entries} (h : w.sorted = mapping es) :
    ∃ fs, w = mapping fs ∧ es = (sortedEntries fs).mergeSort keyNotAfter := by
  cases w with
  | mapping fs => exact ⟨fs, rfl, (Value.mapping.inj h).symm⟩
  | _ => cases h

/-- Values that become equal when they are sorted are the same up to order. -/
theorem reordered_of_sorted_eq {v w : Value} (h : v.sorted = w.sorted)
    (hv : v.IsMadeOf HoldsCodes) (hw : w.IsMadeOf HoldsCodes) : Reordered v w := by
  induction v using parts_induction generalizing w with
  | leaf v noList noMapping =>
    have kept : v.sorted = v := by
      cases v with
      | list items => exact absurd rfl (noList items)
      | mapping es => exact absurd rfl (noMapping es)
      | _ => rfl
    rw [kept] at h
    obtain rfl : v = w := by
      cases w with
      | list items => exact absurd h (noList _)
      | mapping es => exact absurd h (noMapping _)
      | _ => exact h
    exact .same v
  | list xs ih =>
    obtain ⟨ys, rfl, items⟩ := exists_of_sorted_list h.symm
    rw [sortedItems_eq_map] at items
    refine .list (by simpa using congrArg List.length items) fun i v w hx hy => ?_
    have part := congrArg (·[i]?) items
    simp only [List.getElem?_map, hx, hy, Option.map_some, Option.some.injEq] at part
    have hx := List.mem_of_getElem? hx
    exact ih v hx part (hv.of_mem hx) (hw.of_mem (List.mem_of_getElem? hy))
  | mapping es ih =>
    obtain ⟨fs, rfl, entries⟩ := exists_of_sorted_mapping h.symm
    have perm : (sortedEntries es).Perm (sortedEntries fs) :=
      (List.mergeSort_perm _ keyNotAfter).symm.trans
        (entries ▸ List.mergeSort_perm _ keyNotAfter)
    have same : ∀ key, (es.lookup key).map sorted = (fs.lookup key).map sorted := by
      intro key
      rw [← lookup_sortedEntries, ← lookup_sortedEntries]
      refine lookup_of_perm ?_ perm key
      rw [map_fst_sortedEntries]
      exact hv.distinct
    refine .mapping (fun key => ?_) fun key v w found found' => ?_
    · rw [← Option.map_eq_none_iff (f := sorted), same, Option.map_eq_none_iff]
    · have part := same key
      simp only [found, found', Option.map_some, Option.some.injEq] at part
      exact ih _ (mem_of_lookup found) part (hv.of_lookup found) (hw.of_lookup found')

/-- Values are the same up to order just if they become equal when they are sorted. -/
theorem sorted_eq_iff {v w : Value} (hv : v.IsMadeOf HoldsCodes) (hw : w.IsMadeOf HoldsCodes) :
    v.sorted = w.sorted ↔ Reordered v w :=
  ⟨fun h => reordered_of_sorted_eq h hv hw, fun h => h.sorted_eq hv hw⟩

/-- Values that are the same up to order have one canonical text. -/
theorem Reordered.canonical_eq {v w : Value} (h : Reordered v w) (hv : v.IsMadeOf HoldsCodes)
    (hw : w.IsMadeOf HoldsCodes) : v.canonical = w.canonical := by
  rw [canonical, canonical, ← canonicalChars_sorted v, ← canonicalChars_sorted w,
    h.sorted_eq hv hw]

end Value

end Bindery
