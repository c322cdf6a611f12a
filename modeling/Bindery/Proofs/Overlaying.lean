import Bindery.Config.Overlay
import Bindery.Proofs.Reordering

/-!
# Overlays, place by place

What stands in a configuration is found by a path of keys. When settings are laid over a
configuration, what then stands at the end of a path follows from what stood there on both sides:
the settings prevail, wherever they say nothing the configuration is kept, and the lists that extend
the default are united. Main statement: `exists_overlay_overlaidAt`.
-/

namespace Bindery

open Text

namespace Value

/-! ## Paths -/

/-- What stands at the end of a path of keys through mappings. -/
def at? (v : Value) (path : List String) : Option Value :=
  match path with
  | [] => some v
  | key :: path =>
    match v.get? key with
    | some part => part.at? path
    | none => none
termination_by structural path

/-- Whether the mappings along a path come to a key that is missing. -/
def StopsShort (v : Value) (path : List String) : Prop :=
  ∃ before key after es, path = before ++ key :: after ∧ v.at? before = some (mapping es) ∧
    es.lookup key = none

section Paths

variable {v part : Value} {es : Entries} {key : String} {path : List String}

/-- A path goes on in what stands under its first key. -/
theorem at?_cons (h : es.lookup key = some part) :
    (mapping es).at? (key :: path) = part.at? path := by
  rw [at?, get?, entries?, Option.bind_some, h]

/-- No path leads through a key that is missing. -/
theorem at?_cons_of_lookup (h : es.lookup key = none) :
    (mapping es).at? (key :: path) = none := by
  rw [at?, get?, entries?, Option.bind_some, h]

/-- What mappings have at the end of a path is told by what they have under its first key. -/
theorem at?_cons_congr {fs : Entries} (h : es.lookup key = fs.lookup key) :
    (mapping es).at? (key :: path) = (mapping fs).at? (key :: path) := by
  rw [at?, at?, get?, get?, entries?, entries?, Option.bind_some, Option.bind_some, h]

/-- At the end of a path of one key stands what is under it. -/
theorem at?_singleton : (mapping es).at? [key] = es.lookup key := by
  cases h : es.lookup key with
  | none => exact at?_cons_of_lookup h
  | some part => exact at?_cons h

/-- Only mappings have something at the end of a path that is not empty. -/
theorem at?_cons_of_isMapping (h : v.isMapping = false) : v.at? (key :: path) = none := by
  cases v with
  | mapping es => cases h
  | _ => rfl

/-- What has something at the end of a path that is not empty is a mapping. -/
theorem isMapping_of_at?_cons (h : v.at? (key :: path) = some part) : v.isMapping = true := by
  by_contra other
  rw [Bool.not_eq_true] at other
  rw [at?_cons_of_isMapping other] at h
  cases h

/-- No path goes on below a key under which there is no mapping. -/
theorem at?_cons_cons {next : String}
    (leaf : ∀ current, es.lookup key = some current → current.isMapping = false) :
    (mapping es).at? (key :: next :: path) = none := by
  cases h : es.lookup key with
  | none => exact at?_cons_of_lookup h
  | some current => exact (at?_cons h).trans (at?_cons_of_isMapping (leaf current h))

/-- A value at the end of a path is made of what the whole is made of. -/
theorem IsMadeOf.of_at? {kind : String → Prop} (h : v.IsMadeOf kind)
    (found : v.at? path = some part) : part.IsMadeOf kind := by
  induction path generalizing v with
  | nil =>
    cases found
    exact h
  | cons key path ih =>
    cases v with
    | mapping es =>
      cases under : es.lookup key with
      | none =>
        rw [at?_cons_of_lookup under] at found
        cases found
      | some next =>
        rw [at?_cons under] at found
        exact ih (h.of_lookup under) found
    | _ => cases found

/-- The mappings along a path come to a missing key if the first key is missing or they do so
below it. -/
theorem stopsShort_cons : (mapping es).StopsShort (key :: path) ↔
    es.lookup key = none ∨ ∃ part, es.lookup key = some part ∧ part.StopsShort path := by
  constructor
  · rintro ⟨before, last, after, fs, split, found, missing⟩
    cases before with
    | nil =>
      cases found
      obtain ⟨rfl, rfl⟩ := List.cons.inj split
      exact .inl missing
    | cons first before =>
      obtain ⟨rfl, rfl⟩ := List.cons.inj split
      cases under : es.lookup key with
      | none => exact .inl rfl
      | some part =>
        rw [at?_cons under] at found
        exact .inr ⟨part, rfl, before, last, after, fs, rfl, found, missing⟩
  · rintro (missing | ⟨part, under, before, last, after, fs, rfl, found, missing⟩)
    · exact ⟨[], key, path, es, rfl, rfl, missing⟩
    · exact ⟨key :: before, last, after, fs, rfl, (at?_cons under).trans found, missing⟩

/-- If the first key is there, they do so below it. -/
theorem stopsShort_cons_of_lookup (h : es.lookup key = some part) :
    (mapping es).StopsShort (key :: path) ↔ part.StopsShort path := by
  simp [stopsShort_cons, h]

/-- What is no mapping has no missing keys. -/
theorem StopsShort.isMapping (h : v.StopsShort path) : v.isMapping = true := by
  obtain ⟨before, key, after, es, -, found, -⟩ := h
  cases before with
  | nil =>
    cases found
    rfl
  | cons first before => exact isMapping_of_at?_cons found

end Paths

end Value

namespace Config

open Value

/-! ## Extended lists -/

/-- Whether a list at the end of a path extends the default. -/
def IsAdditive (path : List String) : Prop := ∃ key ∈ additiveKeys, path.getLast? = some key

/-- Whether lists are united at the end of a path. -/
def Unites (base update : Value) (path : List String) : Prop :=
  IsAdditive path ∧ (∃ xs, base.at? path = some (.list xs)) ∧
    ∃ ys, update.at? path = some (.list ys)

/-- Whether the lists that extend the default list nothing but texts. -/
def ListsTexts (v : Value) : Prop :=
  ∀ path xs, IsAdditive path → v.at? path = some (.list xs) → ∀ x ∈ xs, x.isText = true

/-- Whether something holds of the lists that extend the default in what stands under a key, and of
the paths that lead to them from there. -/
def ExtendedUnder (meets : List String → List Value → Prop) (key : String) (v : Value) : Prop :=
  ∀ path xs, IsAdditive (key :: path) → v.at? path = some (.list xs) → meets path xs

/-- Whether these lists list nothing but texts. -/
abbrev ListsTextsUnder (key : String) (v : Value) : Prop :=
  ExtendedUnder (fun _ xs => ∀ x ∈ xs, x.isText = true) key v

section Additive

variable {key other : String} {path : List String} {es : Entries} {v : Value} {xs : List Value}
  {meets : List String → List Value → Prop}

/-- It is the last key that decides. -/
theorem isAdditive_singleton : IsAdditive [key] ↔ key ∈ additiveKeys := by
  simp [IsAdditive]

/-- The keys before the last one do not matter. -/
theorem isAdditive_cons_cons : IsAdditive (key :: other :: path) ↔ IsAdditive (other :: path) := by
  rw [IsAdditive, IsAdditive, List.getLast?_cons_cons]

/-- What holds in a mapping holds under each of its keys. -/
theorem ExtendedUnder.under (h : ExtendedUnder meets other (.mapping es))
    (found : es.lookup key = some v) : ExtendedUnder (fun path => meets (key :: path)) key v :=
  fun path xs additive list =>
    h (key :: path) xs (isAdditive_cons_cons.2 additive) ((at?_cons found).trans list)

/-- What holds under each key of a mapping holds in it. -/
theorem extendedUnder_mapping
    (each : ∀ e ∈ es, ExtendedUnder (fun path => meets (e.1 :: path)) e.1 e.2) :
    ExtendedUnder meets key (.mapping es) := by
  intro path xs additive found
  cases path with
  | nil => cases found
  | cons next path =>
    cases under : es.lookup next with
    | none =>
      rw [at?_cons_of_lookup under] at found
      cases found
    | some v =>
      rw [at?_cons under] at found
      exact each _ (mem_of_lookup under) path xs (isAdditive_cons_cons.1 additive) found

/-- In what is no mapping it must hold of the value itself, if that is such a list. -/
theorem extendedUnder_of_isMapping (leaf : v.isMapping = false)
    (each : ∀ xs, v = .list xs → key ∈ additiveKeys → meets [] xs) :
    ExtendedUnder meets key v := by
  intro path xs additive found
  cases path with
  | nil => exact each xs (Option.some.inj found) (isAdditive_singleton.1 additive)
  | cons next path =>
    rw [at?_cons_of_isMapping leaf] at found
    cases found

/-- The lists that extend the default list texts if they do so under each key. -/
theorem listsTexts_mapping_iff (key : String) :
    ListsTexts (.mapping es) ↔ ListsTextsUnder key (.mapping es) := by
  constructor
  · intro h path xs additive found
    cases path with
    | nil => cases found
    | cons next path => exact h _ xs (isAdditive_cons_cons.1 additive) found
  · intro h path xs additive found
    cases path with
    | nil => cases found
    | cons next path => exact h _ xs (isAdditive_cons_cons.2 additive) found

/-- An extended list of texts that hold code points is a row of texts. -/
theorem ListsTextsUnder.areTexts (h : ListsTextsUnder key (.list xs))
    (additive : key ∈ additiveKeys) (held : (Value.list xs).IsMadeOf HoldsCodes) : AreTexts xs :=
  areTexts_of_isMadeOf held (h [] xs (isAdditive_singleton.2 additive) rfl)

end Additive

/-! ## What an overlay does with one value -/

variable {key other : String} {lower upper merged : Entries} {base update current v w : Value}

/-- Mappings are overlaid. -/
theorem overlayValue_mapping :
    overlayValue key (some (.mapping lower)) (.mapping upper) =
      (overlayEntries lower upper).map Value.mapping := by
  rw [overlayValue]

/-- Lists that extend the default are united. -/
theorem overlayValue_list {xs ys : List Value} (additive : key ∈ additiveKeys) :
    overlayValue key (some (.list xs)) (.list ys) = (sortedUnion xs ys).map Value.list := by
  rw [overlayValue, if_pos additive]

/-- Everything else replaces what is there. -/
theorem overlayValue_cases (key : String) (current : Option Value) (v : Value) :
    (∃ lower upper, current = some (.mapping lower) ∧ v = .mapping upper) ∨
      (∃ xs ys, current = some (.list xs) ∧ v = .list ys ∧ key ∈ additiveKeys) ∨
      (overlayValue key current v = .ok v ∧
        (∀ lower, current = some (.mapping lower) → v.isMapping = false) ∧
        ∀ xs ys, current = some (.list xs) → v = .list ys → key ∉ additiveKeys) := by
  cases v with
  | mapping upper =>
    rcases current with _ | current
    · exact .inr (.inr ⟨by rw [overlayValue]; nofun, nofun, nofun⟩)
    · cases current with
      | mapping lower => exact .inl ⟨lower, upper, rfl, rfl⟩
      | _ => exact .inr (.inr ⟨by rw [overlayValue]; nofun, nofun, nofun⟩)
  | list ys =>
    rcases current with _ | current
    · exact .inr (.inr ⟨by rw [overlayValue]; nofun, nofun, nofun⟩)
    · cases current with
      | list xs =>
        by_cases additive : key ∈ additiveKeys
        · exact .inr (.inl ⟨xs, ys, rfl, rfl, additive⟩)
        · refine .inr (.inr ⟨by rw [overlayValue, if_neg additive], nofun, fun _ _ _ _ => additive⟩)
      | _ => exact .inr (.inr ⟨by rw [overlayValue]; nofun, fun _ _ => rfl, nofun⟩)
  | _ => exact .inr (.inr ⟨by rw [overlayValue] <;> nofun, fun _ _ => rfl, nofun⟩)

/-- A property of overlays, by what they do with values: mappings are overlaid, some lists are
united, and everything else is replaced. -/
@[elab_as_elim]
theorem overlay_induction {motive : String → Option Value → Value → Prop}
    (overlaid : ∀ key lower upper, (∀ e ∈ upper, ∀ current, motive e.1 current e.2) →
      motive key (some (.mapping lower)) (.mapping upper))
    (united : ∀ key xs ys, key ∈ additiveKeys → motive key (some (.list xs)) (.list ys))
    (replaced : ∀ key current v, overlayValue key current v = .ok v →
      (∀ lower, current = some (.mapping lower) → v.isMapping = false) →
      (∀ xs ys, current = some (.list xs) → v = .list ys → key ∉ additiveKeys) →
      motive key current v)
    (key : String) (current : Option Value) (v : Value) : motive key current v := by
  have step (v : Value) (ih : ∀ upper, v = .mapping upper → ∀ e ∈ upper, ∀ key current,
      motive key current e.2) (key : String) (current : Option Value) : motive key current v := by
    obtain ⟨lower, upper, rfl, rfl⟩ | ⟨xs, ys, rfl, rfl, additive⟩ | ⟨kept, fresh, apart⟩ :=
      overlayValue_cases key current v
    · exact overlaid key lower upper fun e he => ih upper rfl e he e.1
    · exact united key xs ys additive
    · exact replaced key current v kept fresh apart
  induction v using parts_induction generalizing key current with
  | leaf v noList noMapping => exact step v (fun upper same => absurd same (noMapping upper)) _ _
  | list items _ => exact step (.list items) nofun _ _
  | mapping upper ih =>
    refine step _ (fun upper' same e he key current => ?_) _ _
    cases same
    exact ih e he key current

/-! ## What an overlay does with entries -/

/-- Under a key the settings do not have, the configuration is kept; under every other one stands
what comes from overlaying the two values. -/
theorem lookup_overlayEntries (distinct : (upper.map Prod.fst).Nodup)
    (h : overlayEntries lower upper = .ok merged) (key : String) :
    (upper.lookup key = none → merged.lookup key = lower.lookup key) ∧
      ∀ v, upper.lookup key = some v →
        ∃ w, merged.lookup key = some w ∧ overlayValue key (lower.lookup key) v = .ok w := by
  induction upper generalizing lower with
  | nil =>
    cases h
    exact ⟨fun _ => rfl, nofun⟩
  | cons e upper ih =>
    obtain ⟨k, part⟩ := e
    rw [List.map_cons, List.nodup_cons] at distinct
    rw [overlayEntries] at h
    cases first : overlayValue k (lower.lookup k) part with
    | error fault =>
      rw [first] at h
      cases h
    | ok w =>
      rw [first] at h
      obtain ⟨missing, present⟩ := ih distinct.2 h
      rw [List.lookup_cons]
      by_cases same : key = k
      · subst same
        have below : upper.lookup key = none := by
          refine List.lookup_eq_none_iff.2 fun e he => bne_iff_ne.2 ?_
          rintro rfl
          have listed := List.mem_map_of_mem (f := Prod.fst) he
          exact distinct.1 listed
        rw [beq_self_eq_true]
        refine ⟨nofun, fun v hv => ?_⟩
        cases hv
        exact ⟨w, (missing below).trans (Entries.lookup_put _ _ _), first⟩
      · rw [beq_eq_false_iff_ne.2 same, ← Entries.lookup_put_of_ne same w lower]
        exact ⟨missing, present⟩

/-- Entries can be overlaid if the values under each key can. -/
theorem exists_overlayEntries (lower : Entries) (distinct : (upper.map Prod.fst).Nodup)
    (each : ∀ e ∈ upper, ∃ w, overlayValue e.1 (lower.lookup e.1) e.2 = .ok w) :
    ∃ merged, overlayEntries lower upper = .ok merged := by
  induction upper generalizing lower with
  | nil => exact ⟨lower, by rw [overlayEntries]⟩
  | cons e upper ih =>
    obtain ⟨k, part⟩ := e
    rw [List.map_cons, List.nodup_cons] at distinct
    obtain ⟨w, first⟩ := each _ List.mem_cons_self
    rw [overlayEntries, first]
    refine ih _ distinct.2 fun e he => ?_
    have other : e.1 ≠ k := by
      rintro rfl
      have listed := List.mem_map_of_mem (f := Prod.fst) he
      exact distinct.1 listed
    rw [Entries.lookup_put_of_ne other]
    exact each e (List.mem_cons_of_mem _ he)

/-- A value can be laid over another if the lists that extend the default list texts on both
sides. -/
theorem exists_overlayValue {current : Option Value} (held : v.IsMadeOf HoldsCodes)
    (texts : ListsTextsUnder key v) (held' : ∀ w, current = some w → w.IsMadeOf HoldsCodes)
    (texts' : ∀ w, current = some w → ListsTextsUnder key w) :
    ∃ w, overlayValue key current v = .ok w := by
  induction key, current, v using overlay_induction with
  | overlaid key lower upper ih =>
    obtain ⟨merged, h⟩ := exists_overlayEntries lower held.distinct fun e he =>
      ih e he _ (held.part he) (texts.under (lookup_of_mem held.distinct he))
        (fun w hw => (held' _ rfl).of_lookup hw) fun w hw => (texts' _ rfl).under hw
    exact ⟨.mapping merged, by rw [overlayValue_mapping, h]; rfl⟩
  | united key xs ys additive =>
    obtain ⟨ts, union, -⟩ := exists_sortedUnion ((texts' _ rfl).areTexts additive (held' _ rfl))
      (texts.areTexts additive held)
    exact ⟨.list (ts.map Value.text), by rw [overlayValue_list additive, union]; rfl⟩
  | replaced key current v kept _ _ => exact ⟨v, kept⟩

/-! ## What then stands at the end of a path -/

/-- What stands at the end of a path after laying settings over a configuration. -/
inductive OverlaidAt (base update : Value) (path : List String) : Option Value → Prop
  /-- What the settings have there, if it is no mapping and no lists are united. -/
  | replaced {v : Value} (found : update.at? path = some v) (leaf : v.isMapping = false)
    (apart : ¬ Unites base update path) : OverlaidAt base update path (some v)
  /-- Where lists are united, the texts of both of them in ascending order, each of them once. -/
  | united {xs ys : List Value} {ts : List String} (additive : IsAdditive path)
    (below : base.at? path = some (.list xs)) (above : update.at? path = some (.list ys))
    (ascending : IsAscending ts)
    (members : ∀ v, v ∈ ts.map Value.text ↔ v ∈ xs ∨ v ∈ ys) :
    OverlaidAt base update path (some (.list (ts.map Value.text)))
  /-- What the configuration has there, if the mappings of the settings come to a missing key. -/
  | kept {v : Value} (short : update.StopsShort path) (found : base.at? path = some v) :
    OverlaidAt base update path (some v)
  /-- A mapping, if the settings have one there. -/
  | mapped {es fs : Entries} (found : update.at? path = some (.mapping es)) :
    OverlaidAt base update path (some (.mapping fs))
  /-- Otherwise nothing. -/
  | absent (missing : update.at? path = none)
    (unkept : update.StopsShort path → base.at? path = none) : OverlaidAt base update path none

section Places

variable {path : List String} {result : Option Value}

/-- What is overlaid below a key of two mappings is overlaid in them. -/
theorem OverlaidAt.below {lower' upper' : Entries}
    (h : OverlaidAt (.mapping lower') (.mapping upper') path result)
    (hl : lower.lookup key = some (.mapping lower'))
    (hu : upper.lookup key = some (.mapping upper')) :
    OverlaidAt (.mapping lower) (.mapping upper) (key :: path) result := by
  have short : (Value.mapping upper).StopsShort (key :: path) ↔
      (Value.mapping upper').StopsShort path := stopsShort_cons_of_lookup hu
  cases h with
  | replaced found leaf apart =>
    refine .replaced ((at?_cons hu).trans found) leaf fun unites => apart ?_
    rw [Unites, at?_cons hl, at?_cons hu] at unites
    cases path with
    | nil =>
      cases found
      cases leaf
    | cons next path => exact ⟨isAdditive_cons_cons.1 unites.1, unites.2⟩
  | united additive below above ascending members =>
    cases path with
    | nil => cases below
    | cons next path =>
      exact .united (isAdditive_cons_cons.2 additive) ((at?_cons hl).trans below)
        ((at?_cons hu).trans above) ascending members
  | kept stops found => exact .kept (short.2 stops) ((at?_cons hl).trans found)
  | mapped found => exact .mapped ((at?_cons hu).trans found)
  | absent missing unkept =>
    exact .absent ((at?_cons hu).trans missing) fun stops =>
      (at?_cons hl).trans (unkept (short.1 stops))

/-- What the settings have at the end of a path prevails unless lists are united there. -/
theorem overlaidAt_of_found (found : update.at? path = some v) (apart : ¬ Unites base update path) :
    OverlaidAt base update path (some v) := by
  cases leaf : v.isMapping with
  | true =>
    cases v with
    | mapping es => exact .mapped found
    | _ => cases leaf
  | false => exact .replaced found leaf apart

/-- Below a key that the settings do not have, the configuration is kept. -/
theorem overlaidAt_of_missing (hu : upper.lookup key = none) :
    OverlaidAt (.mapping lower) (.mapping upper) (key :: path)
      ((Value.mapping lower).at? (key :: path)) := by
  cases found : (Value.mapping lower).at? (key :: path) with
  | none => exact .absent (at?_cons_of_lookup hu) fun _ => found
  | some v => exact .kept (stopsShort_cons.2 (.inl hu)) found

/-- Under a key with lists that are united stands their union, and nothing below it. -/
theorem overlaidAt_of_united {xs ys : List Value} {ts : List String} (additive : key ∈ additiveKeys)
    (hl : lower.lookup key = some (.list xs)) (hu : upper.lookup key = some (.list ys))
    (ascending : IsAscending ts) (members : ∀ v, v ∈ ts.map Value.text ↔ v ∈ xs ∨ v ∈ ys) :
    OverlaidAt (.mapping lower) (.mapping upper) (key :: path)
      ((Value.list (ts.map Value.text)).at? path) := by
  cases path with
  | nil =>
    exact .united (isAdditive_singleton.2 additive) (at?_cons hl) (at?_cons hu) ascending members
  | cons next path => exact .absent (at?_cons hu) fun _ => at?_cons hl

/-- What replaces the value under a key is what the settings have there. -/
theorem overlaidAt_of_replaced (hu : upper.lookup key = some v)
    (fresh : ∀ lower', lower.lookup key = some (.mapping lower') → v.isMapping = false)
    (apart : ∀ xs ys, lower.lookup key = some (.list xs) → v = .list ys → key ∉ additiveKeys) :
    OverlaidAt (.mapping lower) (.mapping upper) (key :: path) (v.at? path) := by
  have at_eq : (Value.mapping upper).at? (key :: path) = v.at? path := at?_cons hu
  cases path with
  | nil =>
    refine overlaidAt_of_found at_eq ?_
    rintro ⟨additive, ⟨xs, below⟩, ys, above⟩
    rw [at?_singleton] at below above
    rw [hu] at above
    exact apart xs ys below (Option.some.inj above) (isAdditive_singleton.1 additive)
  | cons next path =>
    cases mapping : v.isMapping with
    | false =>
      rw [at?_cons_of_isMapping mapping] at at_eq ⊢
      refine .absent at_eq fun stops => ?_
      rw [((stopsShort_cons_of_lookup hu).1 stops).isMapping] at mapping
      cases mapping
    | true =>
      -- Below a mapping that replaces something else, the configuration has nothing.
      have nothing : (Value.mapping lower).at? (key :: next :: path) = none := by
        refine at?_cons_cons fun current hl => ?_
        cases current with
        | mapping lower' =>
          rw [fresh lower' hl] at mapping
          cases mapping
        | _ => rfl
      cases found : v.at? (next :: path) with
      | none => exact .absent (at_eq.trans found) fun _ => nothing
      | some w =>
        refine overlaidAt_of_found (at_eq.trans found) ?_
        rintro ⟨-, ⟨xs, below⟩, -⟩
        rw [nothing] at below
        cases below

/-- What stands at the end of every path when settings are laid over entries. -/
theorem overlaidAt_of_overlayEntries (heldLower : (Value.mapping lower).IsMadeOf HoldsCodes)
    (heldUpper : (Value.mapping upper).IsMadeOf HoldsCodes)
    (textsLower : ListsTextsUnder other (.mapping lower))
    (textsUpper : ListsTextsUnder other (.mapping upper))
    (h : overlayEntries lower upper = .ok merged) (path : List String) :
    OverlaidAt (.mapping lower) (.mapping upper) path ((Value.mapping merged).at? path) := by
  induction path generalizing other lower upper merged with
  | nil => exact .mapped rfl
  | cons key path ih =>
    obtain ⟨missing, present⟩ := lookup_overlayEntries heldUpper.distinct h key
    cases hu : upper.lookup key with
    | none =>
      rw [at?_cons_congr (missing hu)]
      exact overlaidAt_of_missing hu
    | some v =>
      obtain ⟨w, hm, value⟩ := present v hu
      rw [at?_cons hm]
      obtain ⟨lower', upper', hl, rfl⟩ | ⟨xs, ys, hl, rfl, additive⟩ | ⟨same, fresh, apart⟩ :=
        overlayValue_cases key (lower.lookup key) v
      · rw [hl, overlayValue_mapping] at value
        cases inner : overlayEntries lower' upper' with
        | error fault =>
          rw [inner] at value
          cases value
        | ok merged' =>
          rw [inner] at value
          cases value
          exact (ih (heldLower.of_lookup hl) (heldUpper.of_lookup hu)
            (textsLower.under hl) (textsUpper.under hu) inner).below hl hu
      · have hx : ListsTextsUnder key (.list xs) := textsLower.under hl
        have hy : ListsTextsUnder key (.list ys) := textsUpper.under hu
        obtain ⟨ts, union, ascending, members⟩ :=
          exists_sortedUnion (hx.areTexts additive (heldLower.of_lookup hl))
            (hy.areTexts additive (heldUpper.of_lookup hu))
        rw [hl, overlayValue_list additive, union] at value
        cases value
        exact overlaidAt_of_united additive hl hu ascending members
      · rw [same] at value
        cases value
        exact overlaidAt_of_replaced hu fresh apart

end Places

/-- Settings can be laid over a configuration, and what then stands at the end of every path is what
the settings have there if it is no mapping, the ascending union where both sides have lists that
are extended, what the configuration has there if the settings say nothing, a mapping if the
settings have one, and otherwise nothing. -/
theorem exists_overlay_overlaidAt {lower upper : Entries}
    (heldLower : (Value.mapping lower).IsMadeOf HoldsCodes)
    (heldUpper : (Value.mapping upper).IsMadeOf HoldsCodes)
    (textsLower : ListsTexts (.mapping lower)) (textsUpper : ListsTexts (.mapping upper)) :
    ∃ merged, overlay lower (.mapping upper) = .ok merged ∧
      ∀ path, OverlaidAt (.mapping lower) (.mapping upper) path (merged.at? path) := by
  have textsLower := (listsTexts_mapping_iff "").1 textsLower
  have textsUpper := (listsTexts_mapping_iff "").1 textsUpper
  have all (e) (he : e ∈ upper) : ∃ w, overlayValue e.1 (lower.lookup e.1) e.2 = .ok w :=
    exists_overlayValue (heldUpper.part he) (textsUpper.under (lookup_of_mem heldUpper.distinct he))
      (fun w hw => heldLower.of_lookup hw) fun w hw => textsLower.under hw
  obtain ⟨merged, h⟩ := exists_overlayEntries lower heldUpper.distinct all
  refine ⟨.mapping merged, by rw [overlay, h]; rfl, ?_⟩
  exact overlaidAt_of_overlayEntries heldLower heldUpper textsLower textsUpper h

/-- Settings that extend a list, put a mapping over a text and a text over a mapping. -/
theorem exists_overlay_overlaidAt_sample :
    let lower : Entries :=
      [("events", .mapping [("signal_sections", .list [.text "signals", .text "Q_SIGNALS"])]),
        ("rename", .text "all"), ("output", .mapping [("tree_file", .text "tree.yml")])]
    let upper : Entries :=
      [("output", .text "none"), ("rename", .mapping [("targets", .list [.int 1])]),
        ("events", .mapping [("signal_sections", .list [.text "slots", .text "signals"])])]
    ((Value.mapping lower).IsMadeOf HoldsCodes ∧ (Value.mapping upper).IsMadeOf HoldsCodes ∧
      ListsTexts (.mapping lower) ∧ ListsTexts (.mapping upper)) ∧
      ∃ merged, overlay lower (.mapping upper) = .ok merged ∧
        ∀ path, OverlaidAt (.mapping lower) (.mapping upper) path (merged.at? path) := by
  intro lower upper
  have plainLower : (Value.mapping lower).IsMadeOf IsPlain := by decide +kernel
  have plainUpper : (Value.mapping upper).IsMadeOf IsPlain := by decide +kernel
  have heldLower := plainLower.imp fun _ h => h.holdsCharacters.holdsCodes
  have heldUpper := plainUpper.imp fun _ h => h.holdsCharacters.holdsCodes
  have textsLower : ListsTextsUnder "" (.mapping lower) := by
    refine extendedUnder_mapping ?_
    simp only [lower, List.forall_mem_cons]
    refine ⟨extendedUnder_mapping ?_, extendedUnder_of_isMapping rfl (by simp),
      extendedUnder_mapping ?_, List.forall_mem_nil _⟩
    · simp only [List.forall_mem_cons]
      exact ⟨extendedUnder_of_isMapping rfl (by simp [isText, text?]), List.forall_mem_nil _⟩
    · simp only [List.forall_mem_cons]
      exact ⟨extendedUnder_of_isMapping rfl (by simp), List.forall_mem_nil _⟩
  have textsUpper : ListsTextsUnder "" (.mapping upper) := by
    refine extendedUnder_mapping ?_
    simp only [upper, List.forall_mem_cons]
    refine ⟨extendedUnder_of_isMapping rfl (by simp), extendedUnder_mapping ?_,
      extendedUnder_mapping ?_, List.forall_mem_nil _⟩
    · simp only [List.forall_mem_cons]
      exact ⟨extendedUnder_of_isMapping rfl (by simp [additiveKeys]), List.forall_mem_nil _⟩
    · simp only [List.forall_mem_cons]
      exact ⟨extendedUnder_of_isMapping rfl (by simp [isText, text?]), List.forall_mem_nil _⟩
  have textsLower := (listsTexts_mapping_iff "").2 textsLower
  have textsUpper := (listsTexts_mapping_iff "").2 textsUpper
  exact ⟨⟨heldLower, heldUpper, textsLower, textsUpper⟩,
    exists_overlay_overlaidAt heldLower heldUpper textsLower textsUpper⟩

end Config

end Bindery
