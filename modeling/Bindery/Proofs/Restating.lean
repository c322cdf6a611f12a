import Bindery.Config.Defaults
import Bindery.Proofs.Overlaying

/-!
# Settings that say the same

A user may write entries in any order, and list the texts that extend a default in any order and as
often as they like. Settings that differ in nothing else lead to configurations that are the same up
to order, and these have one fingerprint. The keys of settings are texts, as those of every value are;
a document with a key of another kind is not read as a value. Main statement: `load_restated`.
-/

namespace Bindery

open Text

namespace Value

/-! ## Restated lists and mappings -/

/-- Lists with the same texts, in any order and number, and with the same other items in the same
order. -/
structure Relisted (xs ys : List Value) : Prop where
  /-- The texts are the same. -/
  texts : ∀ s, text s ∈ xs ↔ text s ∈ ys
  /-- The other items are the same one by one. -/
  others : List.Forall₂ Reordered (xs.filter fun x => !x.isText) (ys.filter fun y => !y.isText)

/-- How those of some paths go on that begin with a key. -/
def pathsBehind (key : String) (paths : List (List String)) : List (List String) :=
  paths.filterMap fun path =>
    match path with
    | first :: path => if first = key then some path else none
    | [] => none

/-- Values that differ at most in the order of entries, at any depth, and in the order and number of
the texts in the lists at the end of some paths. -/
inductive Restates : List (List String) → Value → Value → Prop
  /-- Values that differ at most in the order of entries. -/
  | reordered {paths : List (List String)} {v w : Value} (h : Reordered v w) : Restates paths v w
  /-- Lists at the end of a path. -/
  | listed {paths : List (List String)} {xs ys : List Value} (here : [] ∈ paths)
    (h : Relisted xs ys) : Restates paths (list xs) (list ys)
  /-- Mappings with the same keys, under which values are restated at the end of the paths that go
  on there. -/
  | mapping {paths : List (List String)} {es fs : Entries}
    (keys : ∀ key, es.lookup key = none ↔ fs.lookup key = none)
    (each : ∀ (key : String) (v w : Value), es.lookup key = some v → fs.lookup key = some w →
      Restates (pathsBehind key paths) v w) : Restates paths (mapping es) (mapping fs)

section Restates

variable {paths : List (List String)} {path : List String} {key : String} {v w : Value}
  {xs ys : List Value} {es : Entries}

/-- A path goes on behind a key if with that key in front it is one of the paths. -/
theorem mem_pathsBehind : path ∈ pathsBehind key paths ↔ key :: path ∈ paths := by
  rw [pathsBehind, List.mem_filterMap]
  constructor
  · rintro ⟨p, hp, go⟩
    split at go
    · split at go
      · next same =>
        cases go
        rwa [← same]
      · cases go
    · cases go
  · exact fun h => ⟨key :: path, h, if_pos rfl⟩

/-- Only a text is the same as it up to order. -/
theorem Reordered.text_eq_iff (h : Reordered v w) (s : String) : text s = v ↔ text s = w := by
  cases h with
  | same => exact Iff.rfl
  | list _ _ => simp
  | mapping _ _ => simp

/-- Lists that are the same up to order list the same. -/
theorem relisted_of_forall₂ (h : List.Forall₂ Reordered xs ys) : Relisted xs ys where
  texts s := by
    induction h with
    | nil => exact Iff.rfl
    | cons same _ ih => rw [List.mem_cons, List.mem_cons, same.text_eq_iff, ih]
  others := List.rel_filter (fun v w (h : Reordered v w) => by simp only [h.isText_eq]) h

/-- Where a list is restated, its items are. -/
theorem Restates.items (h : Restates paths (.list xs) w) :
    ∃ ys, w = .list ys ∧ Relisted xs ys := by
  generalize same : Value.list xs = v at h
  cases h with
  | reordered h =>
    subst same
    cases h with
    | same => exact ⟨xs, rfl, relisted_of_forall₂ (List.forall₂_same.2 fun v _ => .same v)⟩
    | list length each =>
      exact ⟨_, rfl, relisted_of_forall₂ (reordered_list_iff.1 (.list length each))⟩
  | listed _ h =>
    cases same
    exact ⟨_, rfl, h⟩
  | mapping _ _ => cases same

/-- Where a mapping is restated, it has the same keys, and what is under them is restated. -/
theorem Restates.entries (h : Restates paths (.mapping es) w) :
    ∃ fs, w = .mapping fs ∧ (∀ key, es.lookup key = none ↔ fs.lookup key = none) ∧
      ∀ key v w, es.lookup key = some v → fs.lookup key = some w →
        Restates (pathsBehind key paths) v w := by
  generalize same : Value.mapping es = v at h
  cases h with
  | reordered h =>
    subst same
    cases h with
    | same =>
      refine ⟨es, rfl, fun _ => Iff.rfl, fun key v w hv hw => ?_⟩
      cases hv.symm.trans hw
      exact .reordered (.same v)
    | mapping keys each =>
      exact ⟨_, rfl, keys, fun key v w hv hw => .reordered (each key v w hv hw)⟩
  | listed _ _ => cases same
  | mapping keys each =>
    cases same
    exact ⟨_, rfl, keys, each⟩

/-- Mappings are restated if they have the same keys and entries with one key are restated. -/
theorem restates_mapping {fs : Entries} (keys : (es.map Prod.fst).Perm (fs.map Prod.fst))
    (each : ∀ e ∈ es, ∀ f ∈ fs, e.1 = f.1 → Restates (pathsBehind e.1 paths) e.2 f.2) :
    Restates paths (.mapping es) (.mapping fs) := by
  refine .mapping (fun key => ?_) fun key v w hv hw => ?_
  · have missing (gs : Entries) : gs.lookup key = none ↔ key ∉ gs.map Prod.fst := by
      rw [List.lookup_eq_none_iff, List.mem_map, not_exists]
      exact forall_congr' fun e => by rw [not_and, bne_iff_ne, ne_comm]
    rw [missing, missing, keys.mem_iff]
  · exact each _ (mem_of_lookup hv) _ (mem_of_lookup hw) rfl

/-- Where none of the paths leads to a list, values differ in the order of entries only. -/
theorem Restates.reordered_of_at? (h : Restates paths v w)
    (none : ∀ path ∈ paths, ∀ xs, v.at? path ≠ some (.list xs)) : Reordered v w := by
  induction h with
  | reordered h => exact h
  | listed here _ => exact absurd rfl (none [] here _)
  | mapping keys each ih =>
    refine .mapping keys fun key v w hv hw => ih key v w hv hw fun path hp xs found => ?_
    exact none _ (mem_pathsBehind.1 hp) xs ((at?_cons hv).trans found)

/-- What is restated is of the same kind. -/
theorem Restates.kindWord_eq (h : Restates paths v w) : v.kindWord = w.kindWord := by
  cases h with
  | reordered h => exact h.kindWord_eq
  | listed _ _ => rfl
  | mapping _ _ => rfl

/-- What is restated counts as given if what it restates does. -/
theorem Restates.isGiven_eq (h : Restates paths v w) (apart : [] ∉ paths) :
    v.isGiven = w.isGiven := by
  cases h with
  | reordered h => exact h.isGiven_eq
  | listed here _ => exact absurd here apart
  | mapping keys _ => exact isGiven_mapping_eq keys

/-- What is restated is a mapping if what it restates is one. -/
theorem Restates.isMapping_eq (h : Restates paths v w) : v.isMapping = w.isMapping := by
  cases h with
  | reordered h => exact h.isMapping_eq
  | listed _ _ => rfl
  | mapping _ _ => rfl

end Restates

/-! ## Unions of restated lists -/

section Unions

variable {xs ys : List Value}

/-- A list in which no text is listed lists other values. -/
theorem isText_of_notMem (h : ∀ s, text s ∉ xs) : ∀ x ∈ xs, x.isText = false := by
  intro x hx
  by_contra isText
  obtain ⟨s, rfl⟩ := exists_eq_text (by simpa using isText)
  exact h s hx

/-- Something else than a text is listed in both lists or in neither. -/
theorem Relisted.exists_isText_iff (h : Relisted xs ys) :
    (∃ x ∈ xs, x.isText = false) ↔ ∃ y ∈ ys, y.isText = false := by
  have none : xs.filter (fun x => !x.isText) = [] ↔ ys.filter (fun y => !y.isText) = [] := by
    rw [← List.length_eq_zero_iff, h.others.length_eq, List.length_eq_zero_iff]
  simpa [List.filter_eq_nil_iff] using not_congr none

/-- Lists without texts are restated one by one. -/
theorem Relisted.forall₂ (h : Relisted xs ys) (hx : ∀ x ∈ xs, x.isText = false)
    (hy : ∀ y ∈ ys, y.isText = false) : List.Forall₂ Reordered xs ys := by
  have others := h.others
  rwa [List.filter_eq_self.2 fun x h => by rw [hx x h]; rfl,
    List.filter_eq_self.2 fun y h => by rw [hy y h]; rfl] at others

/-- Lists that are the same up to order are the same or have something that is not simple. -/
theorem eq_or_exists_isSimple (h : List.Forall₂ Reordered xs ys) :
    xs = ys ∨ (∃ x ∈ xs, x.isSimple = false) ∧ ∃ y ∈ ys, y.isSimple = false := by
  induction h with
  | nil => exact .inl rfl
  | @cons x y xs ys same _ ih =>
    cases simple : x.isSimple with
    | true =>
      cases same.eq_of_isSimple simple
      refine ih.imp (congrArg _) fun ⟨⟨u, hu, hu'⟩, w, hw, hw'⟩ => ?_
      exact ⟨⟨u, List.mem_cons_of_mem _ hu, hu'⟩, w, List.mem_cons_of_mem _ hw, hw'⟩
    | false =>
      exact .inr ⟨⟨x, List.mem_cons_self, simple⟩, y, List.mem_cons_self,
        same.isSimple_eq ▸ simple⟩

/-- The order of entries in its members does not matter for a union. -/
theorem sortedUnion_of_forall₂ (h : List.Forall₂ Reordered xs ys) (zs : List Value) :
    sortedUnion zs xs = sortedUnion zs ys := by
  obtain rfl | ⟨⟨x, hx, compound⟩, y, hy, compound'⟩ := eq_or_exists_isSimple h
  · rfl
  · rw [sortedUnion_of_isSimple (List.mem_append_right _ hx) compound,
      sortedUnion_of_isSimple (List.mem_append_right _ hy) compound']

/-- A list of texts unites with others by what it lists. -/
theorem sortedUnion_of_areTexts {zs : List Value} (hz : AreTexts zs) (hx : AreTexts xs)
    (hy : AreTexts ys) (texts : ∀ s, text s ∈ xs ↔ text s ∈ ys) :
    sortedUnion zs xs = sortedUnion zs ys := by
  obtain ⟨ss, union, ascending, members⟩ := exists_sortedUnion hz hx
  obtain ⟨ts, union', ascending', members'⟩ := exists_sortedUnion hz hy
  have listed (rs : List String) (s : String) : s ∈ rs ↔ text s ∈ rs.map text :=
    (List.mem_map_of_injective fun _ _ => text.inj).symm
  have same : ss = ts := eq_of_ascending ascending ascending' fun s => by
    rw [listed, listed, members, members', texts]
  rw [union, union', same]

/-- The union with texts does not depend on how a list is stated. -/
theorem Relisted.sortedUnion_eq {zs : List Value} (h : Relisted xs ys) (hz : AreTexts zs)
    (hx : (Value.list xs).IsMadeOf HoldsCodes) (hy : (Value.list ys).IsMadeOf HoldsCodes) :
    sortedUnion zs xs = sortedUnion zs ys := by
  by_cases other : ∃ x ∈ xs, x.isText = false
  · obtain ⟨x, hx, kindX⟩ := other
    obtain ⟨y, hy, kindY⟩ := h.exists_isText_iff.1 ⟨x, hx, kindX⟩
    by_cases text : ∃ s, Value.text s ∈ zs ++ xs
    · -- With a text and something else neither union exists.
      obtain ⟨s, hs⟩ := text
      have hs' : Value.text s ∈ zs ++ ys :=
        List.mem_append.2 ((List.mem_append.1 hs).imp_right (h.texts s).1)
      rw [sortedUnion_of_mixed hs (List.mem_append_right _ hx) rfl kindX,
        sortedUnion_of_mixed hs' (List.mem_append_right _ hy) rfl kindY]
    · -- Without texts the lists are restated one by one.
      have noText : ∀ s, Value.text s ∉ xs := fun s hs => text ⟨s, List.mem_append_right _ hs⟩
      have others : ∀ x ∈ xs, x.isText = false := isText_of_notMem noText
      have others' : ∀ y ∈ ys, y.isText = false :=
        isText_of_notMem fun s hs => noText s ((h.texts s).2 hs)
      exact sortedUnion_of_forall₂ (h.forall₂ others others') zs
  · have other' := mt h.exists_isText_iff.2 other
    exact sortedUnion_of_areTexts hz (areTexts_of_isMadeOf hx (by simpa using other))
      (areTexts_of_isMadeOf hy (by simpa using other')) h.texts

end Unions

end Value

namespace Config

open Value

variable {key other : String} {lower merged : Entries} {es fs : Entries} {v w : Value}
  {current : Option Value} {paths : List (List String)}

/-! ## Faults and results of overlays -/

/-- There is one reason why entries cannot be overlaid. -/
theorem fault_of_overlayEntries {fault : Fault}
    (each : ∀ e ∈ es, ∀ current fault, overlayValue e.1 current e.2 = .error fault →
      fault = .wrongKind)
    (h : overlayEntries lower es = .error fault) : fault = .wrongKind := by
  induction es generalizing lower with
  | nil =>
    rw [overlayEntries] at h
    cases h
  | cons e es ih =>
    obtain ⟨k, part⟩ := e
    rw [overlayEntries] at h
    cases first : overlayValue k (lower.lookup k) part with
    | error fault' =>
      rw [first] at h
      cases h
      exact each _ List.mem_cons_self _ _ first
    | ok merged =>
      rw [first] at h
      exact ih (fun e he => each e (List.mem_cons_of_mem _ he)) h

/-- There is one reason why a value cannot be laid over another. -/
theorem fault_of_overlayValue {fault : Fault} (h : overlayValue key current v = .error fault) :
    fault = .wrongKind := by
  induction key, current, v using overlay_induction generalizing fault with
  | overlaid key lower upper ih =>
    rw [overlayValue_mapping] at h
    cases entries : overlayEntries lower upper with
    | ok merged =>
      rw [entries] at h
      cases h
    | error fault' =>
      rw [entries] at h
      cases h
      exact fault_of_overlayEntries (fun e he current _ => ih e he current) entries
  | united key xs ys additive =>
    rw [overlayValue_list additive] at h
    cases union : sortedUnion xs ys with
    | ok zs =>
      rw [union] at h
      cases h
    | error fault' =>
      rw [union] at h
      cases h
      exact fault_of_sortedUnion union
  | replaced key current v kept _ _ => cases kept.symm.trans h

section Kind

variable {kind : String → Prop}

/-- A mapping stays well formed when an entry of the kind is written. -/
theorem isMadeOf_put (held : (Value.mapping es).IsMadeOf kind) (hk : kind key)
    (hv : v.IsMadeOf kind) : (Value.mapping (es.put key v)).IsMadeOf kind := by
  have distinct := (Pipeline.nodup_put key v held.distinct).1
  have written : ∀ e ∈ es.put key v, kind e.1 ∧ e.2.IsMadeOf kind := by
    intro e he
    have found := lookup_of_mem distinct he
    by_cases same : e.1 = key
    · rw [same, Entries.lookup_put] at found
      cases found
      exact ⟨same ▸ hk, hv⟩
    · rw [Entries.lookup_put_of_ne same] at found
      have he := mem_of_lookup found
      exact ⟨held.key he, held.part he⟩
  exact .mapping distinct (fun e he => (written e he).1) fun e he => (written e he).2

/-- Entries of the kind laid over others of the kind are of the kind. -/
theorem isMadeOf_overlayEntries
    (each : ∀ e ∈ es, ∀ current, (∀ w, current = some w → w.IsMadeOf kind) →
      ∀ w, overlayValue e.1 current e.2 = .ok w → w.IsMadeOf kind)
    (keys : ∀ e ∈ es, kind e.1) (held : (Value.mapping lower).IsMadeOf kind)
    (h : overlayEntries lower es = .ok merged) : (Value.mapping merged).IsMadeOf kind := by
  induction es generalizing lower with
  | nil =>
    rw [overlayEntries] at h
    cases h
    exact held
  | cons e es ih =>
    obtain ⟨k, part⟩ := e
    rw [overlayEntries] at h
    cases first : overlayValue k (lower.lookup k) part with
    | error fault =>
      rw [first] at h
      cases h
    | ok w =>
      rw [first] at h
      have hw := each _ List.mem_cons_self _ (fun _ => held.of_lookup) w first
      exact ih (fun e he => each e (List.mem_cons_of_mem _ he))
        (fun e he => keys e (List.mem_cons_of_mem _ he))
        (isMadeOf_put held (keys _ List.mem_cons_self) hw) h

/-- A value of the kind laid over one of the kind is of the kind. -/
theorem isMadeOf_overlayValue (held : v.IsMadeOf kind)
    (held' : ∀ w, current = some w → w.IsMadeOf kind) (h : overlayValue key current v = .ok w) :
    w.IsMadeOf kind := by
  induction key, current, v using overlay_induction generalizing w with
  | overlaid key lower upper ih =>
    rw [overlayValue_mapping] at h
    cases entries : overlayEntries lower upper with
    | error fault =>
      rw [entries] at h
      cases h
    | ok merged =>
      rw [entries] at h
      cases h
      exact isMadeOf_overlayEntries (fun e he current hc w => ih e he current (held.part he) hc)
        (fun e => held.key) (held' _ rfl) entries
  | united key xs ys additive =>
    rw [overlayValue_list additive] at h
    cases union : sortedUnion xs ys with
    | error fault =>
      rw [union] at h
      cases h
    | ok zs =>
      rw [union] at h
      cases h
      exact .list fun v hv => (List.mem_append.1 (mem_of_sortedUnion union hv)).elim
        (held' _ rfl).of_mem held.of_mem
  | replaced key current v kept _ _ =>
    cases kept.symm.trans h
    exact held

end Kind

/-! ## Overlays of restated values -/

/-- What two operations have in common that come to the same: both have a result, and these are the
same up to order, or there is something to refuse and both stop for one reason. -/
inductive Agree (refused : Prop) : Except Fault Value → Except Fault Value → Prop
  /-- Both have a result. -/
  | both {a b : Value} (h : Reordered a b) : Agree refused (.ok a) (.ok b)
  /-- Neither has one. -/
  | neither (h : refused) (fault : Fault) : Agree refused (.error fault) (.error fault)

/-- Either both have a result or neither. -/
theorem Agree.exists_iff {refused : Prop} {r r' : Except Fault Value} (h : Agree refused r r') :
    (∃ a, r = .ok a) ↔ ∃ b, r' = .ok b := by
  cases h with
  | both h => exact ⟨fun _ => ⟨_, rfl⟩, fun _ => ⟨_, rfl⟩⟩
  | neither _ _ => exact ⟨nofun, nofun⟩

/-- Without a result there is something to refuse, and the other has none. -/
theorem Agree.of_error {refused : Prop} {r r' : Except Fault Value} {fault : Fault}
    (h : Agree refused r r') (error : r = .error fault) : refused ∧ r' = .error fault := by
  cases h with
  | both _ => cases error
  | neither h fault' =>
    cases error
    exact ⟨h, rfl⟩

/-- What is refused for one reason is refused for any wider one. -/
theorem Agree.imp {refused refused' : Prop} {r r' : Except Fault Value} (h : Agree refused r r')
    (wider : refused → refused') : Agree refused' r r' := by
  cases h with
  | both h => exact .both h
  | neither h fault => exact .neither (wider h) fault

/-- Whether something else than a text is listed at the end of one of the paths. -/
def ListsOther (paths : List (List String)) (v : Value) : Prop :=
  ∃ path ∈ paths, ∃ xs, v.at? path = some (.list xs) ∧ ∃ x ∈ xs, x.isText = false

/-- Whether some paths are all that lead to lists that are extended, and these list texts. -/
structure Extends (key : String) (current : Option Value) (paths : List (List String)) : Prop where
  /-- Lists are extended there. -/
  listed : ∀ path ∈ paths, IsAdditive (key :: path) ∧
    ∃ c xs, current = some c ∧ c.at? path = some (.list xs)
  /-- Nowhere else are lists extended. -/
  every : ∀ c, current = some c → ExtendedUnder (fun path xs => path ∈ paths ∧ AreTexts xs) key c

/-- The paths that go on behind a key lead to all lists that are extended there. -/
theorem Extends.under (h : Extends other (some (.mapping lower)) paths) (key : String) :
    Extends key (lower.lookup key) (pathsBehind key paths) where
  listed path hp := by
    obtain ⟨additive, c, xs, same, found⟩ := h.listed _ (mem_pathsBehind.1 hp)
    cases same
    cases under : lower.lookup key with
    | none =>
      rw [at?_cons_of_lookup under] at found
      cases found
    | some c =>
      rw [at?_cons under] at found
      exact ⟨isAdditive_cons_cons.1 additive, c, xs, rfl, found⟩
  every c under path xs additive found :=
    ((h.every _ rfl).under under path xs additive found).imp_left mem_pathsBehind.2

/-- None of these paths leads to a list in what replaces everything. -/
theorem Extends.at?_ne (h : Extends key current paths)
    (fresh : ∀ lower, current = some (.mapping lower) → v.isMapping = false)
    (apart : ∀ xs ys, current = some (.list xs) → v = .list ys → key ∉ additiveKeys) :
    ∀ path ∈ paths, ∀ xs, v.at? path ≠ some (.list xs) := by
  intro path hp ys found
  obtain ⟨additive, c, xs, rfl, listed⟩ := h.listed path hp
  cases path with
  | nil =>
    cases listed
    exact apart xs ys rfl (Option.some.inj found) (isAdditive_singleton.1 additive)
  | cons next path =>
    have mapping : c.isMapping = true := by
      by_contra other
      rw [at?_cons_of_isMapping (by simpa using other)] at listed
      cases listed
    cases c with
    | mapping lower =>
      rw [at?_cons_of_isMapping (fresh lower rfl)] at found
      cases found
    | _ => cases mapping

/-- Entries of which one cannot be overlaid cannot be overlaid. -/
theorem overlayEntries_of_error {fault : Fault} (distinct : (es.map Prod.fst).Nodup)
    (found : es.lookup key = some v) (h : overlayValue key (lower.lookup key) v = .error fault) :
    overlayEntries lower es = .error .wrongKind := by
  cases result : overlayEntries lower es with
  | ok merged =>
    obtain ⟨w, -, value⟩ := (lookup_overlayEntries distinct result _).2 v found
    cases value.symm.trans h
  | error fault' =>
    rw [fault_of_overlayEntries (fun e _ current fault => fault_of_overlayValue) result]

/-- Overlays of entries that agree one by one are the same up to order. -/
theorem reordered_overlayEntries {merged' : Entries} {refused : String → Value → Prop}
    (distinct : (es.map Prod.fst).Nodup) (distinct' : (fs.map Prod.fst).Nodup)
    (keys : ∀ key, es.lookup key = none ↔ fs.lookup key = none)
    (each : ∀ key v w, es.lookup key = some v → fs.lookup key = some w →
      Agree (refused key v) (overlayValue key (lower.lookup key) v)
        (overlayValue key (lower.lookup key) w))
    (h : overlayEntries lower es = .ok merged) (h' : overlayEntries lower fs = .ok merged') :
    Reordered (.mapping merged) (.mapping merged') := by
  have same (key : String) : merged.lookup key = merged'.lookup key ∨
      ∃ a b, merged.lookup key = some a ∧ merged'.lookup key = some b ∧ Reordered a b := by
    obtain ⟨missing, present⟩ := lookup_overlayEntries distinct h key
    obtain ⟨missing', present'⟩ := lookup_overlayEntries distinct' h' key
    cases hv : es.lookup key with
    | none => exact .inl ((missing hv).trans (missing' ((keys key).1 hv)).symm)
    | some v =>
      cases hw : fs.lookup key with
      | none => cases hv.symm.trans ((keys key).2 hw)
      | some w =>
        obtain ⟨a, found, value⟩ := present v hv
        obtain ⟨b, found', value'⟩ := present' w hw
        have agree := each key v w hv hw
        rw [value, value'] at agree
        cases agree with
        | both same => exact .inr ⟨a, b, found, found', same⟩
  refine .mapping (fun key => ?_) fun key a b ha hb => ?_
  · obtain same | ⟨a, b, found, found', -⟩ := same key
    · rw [same]
    · rw [found, found']
      exact ⟨nofun, nofun⟩
  · obtain same | ⟨a', b', found, found', same⟩ := same key
    · cases ha.symm.trans (same.trans hb)
      exact .same a
    · cases ha.symm.trans found
      cases hb.symm.trans found'
      exact same

/-- Entries that agree one by one agree. -/
theorem agree_overlayEntries {refused : String → Value → Prop}
    (distinct : (es.map Prod.fst).Nodup) (distinct' : (fs.map Prod.fst).Nodup)
    (keys : ∀ key, es.lookup key = none ↔ fs.lookup key = none)
    (each : ∀ key v w, es.lookup key = some v → fs.lookup key = some w →
      Agree (refused key v) (overlayValue key (lower.lookup key) v)
        (overlayValue key (lower.lookup key) w)) :
    Agree (∃ key v, es.lookup key = some v ∧ refused key v)
      ((overlayEntries lower es).map Value.mapping)
      ((overlayEntries lower fs).map Value.mapping) := by
  by_cases every : ∀ e ∈ es, ∃ a, overlayValue e.1 (lower.lookup e.1) e.2 = .ok a
  · have every' : ∀ f ∈ fs, ∃ b, overlayValue f.1 (lower.lookup f.1) f.2 = .ok b := by
      intro f hf
      have hw := lookup_of_mem distinct' hf
      cases hv : es.lookup f.1 with
      | none => cases hw.symm.trans ((keys f.1).1 hv)
      | some v => exact (each f.1 v f.2 hv hw).exists_iff.1 (every _ (mem_of_lookup hv))
    obtain ⟨merged, h⟩ := exists_overlayEntries _ distinct every
    obtain ⟨merged', h'⟩ := exists_overlayEntries _ distinct' every'
    rw [h, h']
    exact .both (reordered_overlayEntries distinct distinct' keys each h h')
  · push Not at every
    obtain ⟨e, he, fails⟩ := every
    have hv := lookup_of_mem distinct he
    cases hw : fs.lookup e.1 with
    | none => cases hv.symm.trans ((keys e.1).2 hw)
    | some w =>
      cases value : overlayValue e.1 (lower.lookup e.1) e.2 with
      | ok a => exact absurd value (fails a)
      | error fault =>
        obtain ⟨refuse, value'⟩ := (each e.1 e.2 w hv hw).of_error value
        rw [overlayEntries_of_error distinct hv value, overlayEntries_of_error distinct' hw value']
        exact .neither ⟨e.1, e.2, hv, refuse⟩ .wrongKind

/-- Restated values are overlaid with the same outcome. -/
theorem agree_overlayValue (h : Restates paths v w) (held : v.IsMadeOf HoldsCodes)
    (held' : w.IsMadeOf HoldsCodes) (extended : Extends key current paths) :
    Agree (ListsOther paths v) (overlayValue key current v) (overlayValue key current w) := by
  induction key, current, v using overlay_induction generalizing paths w with
  | overlaid key lower upper ih =>
    obtain ⟨upper', rfl, keys, each⟩ := h.entries
    rw [overlayValue_mapping, overlayValue_mapping]
    have agree := agree_overlayEntries held.distinct held'.distinct keys fun key v w hv hw =>
      ih (key, v) (mem_of_lookup hv) _ (each key v w hv hw) (held.of_lookup hv)
        (held'.of_lookup hw) (extended.under key)
    refine agree.imp ?_
    rintro ⟨key, v, hv, path, hp, xs, found, other⟩
    exact ⟨key :: path, mem_pathsBehind.1 hp, xs, (at?_cons hv).trans found, other⟩
  | united key xs ys additive =>
    obtain ⟨ys', rfl, relisted⟩ := h.items
    obtain ⟨here, texts⟩ := extended.every _ rfl [] xs (isAdditive_singleton.2 additive) rfl
    have same := relisted.sortedUnion_eq texts held held'
    rw [overlayValue_list additive, overlayValue_list additive, ← same]
    cases union : sortedUnion xs ys with
    | ok zs => exact .both (.same _)
    | error fault =>
      refine .neither ⟨[], here, ys, rfl, ?_⟩ fault
      by_contra other
      have others : ∀ y ∈ ys, y.isText = true := by simpa using other
      obtain ⟨ts, union', -⟩ := exists_sortedUnion texts (areTexts_of_isMadeOf held others)
      cases union.symm.trans union'
  | replaced key current v kept fresh apart =>
    have same := h.reordered_of_at? (extended.at?_ne fresh apart)
    rw [kept]
    obtain ⟨lower, upper, hl, rfl⟩ | ⟨xs, ys, hx, rfl, additive⟩ | ⟨kept', -⟩ :=
      overlayValue_cases key current w
    · cases same.isMapping_eq.symm.trans (fresh lower hl)
    · obtain ⟨xs', rfl⟩ := same.exists_list
      exact absurd additive (apart xs xs' hx rfl)
    · rw [kept']
      exact .both same

/-! ## Loading -/

/-- The paths to the lists that extend a default. -/
def extendedPaths : List (List String) := [["value_types"], ["events", "signal_sections"]]

/-- The defaults are well formed. -/
theorem isMadeOf_defaults : (Value.mapping defaults).IsMadeOf HoldsCodes := by
  have plain : (Value.mapping defaults).IsMadeOf IsPlain := by decide +kernel
  exact plain.imp fun _ h => h.holdsCharacters.holdsCodes

/-- Their lists of labels and of types are extended and no others. -/
theorem extends_defaults : Extends "" (some (.mapping defaults)) extendedPaths where
  listed := by
    simp only [extendedPaths, List.forall_mem_cons]
    exact ⟨⟨by simp [IsAdditive, additiveKeys], _, _, rfl, rfl⟩,
      ⟨by simp [IsAdditive, additiveKeys], _, _, rfl, rfl⟩, List.forall_mem_nil _⟩
  every c same := by
    cases same
    have labels : AreTexts (["Q_SIGNALS", "signals"].map Value.text) := by
      have found : (Value.mapping defaults).at? ["events", "signal_sections"] =
          some (texts ["Q_SIGNALS", "signals"]) := rfl
      exact areTexts_of_isMadeOf (isMadeOf_defaults.of_at? found) (by simp [isText, text?])
    refine extendedUnder_mapping ?_
    simp only [defaults, List.forall_mem_cons]
    refine ⟨extendedUnder_mapping ?module, extendedUnder_mapping ?visibility,
      extendedUnder_mapping ?rename, extendedUnder_mapping ?events,
      extendedUnder_of_isMapping rfl ?types, extendedUnder_mapping ?output, List.forall_mem_nil _⟩
    case types =>
      rintro xs same -
      cases same
      exact ⟨by simp [extendedPaths], List.forall_mem_nil _⟩
    case events =>
      simp only [List.forall_mem_cons]
      refine ⟨extendedUnder_of_isMapping rfl ?_, ?_⟩
      · rintro xs same -
        cases same
        exact ⟨by simp [extendedPaths], labels⟩
      · and_intros
        all_goals first
          | exact extendedUnder_of_isMapping rfl (by simp [additiveKeys])
          | exact List.forall_mem_nil _
    all_goals
      simp only [List.forall_mem_cons]
      and_intros
      all_goals first
        | exact extendedUnder_of_isMapping rfl (by simp [additiveKeys])
        | exact List.forall_mem_nil _

/-- Whether a user's settings are refused: they are given and no mapping, or list something else
than a text where a default is extended. -/
def IsRefused (user : Value) : Prop :=
  user.isGiven = true ∧ user.isMapping = false ∨ ListsOther extendedPaths user

/-- Settings that count as given are loaded by laying them over the defaults. -/
theorem load_of_isGiven {user : Value} (given : user.isGiven = true) :
    load (some user) = overlay defaults user := by
  rw [load, orElse, if_pos given]

/-- Settings that do not count as given leave the defaults. -/
theorem load_of_not_isGiven {user : Value} (missing : user.isGiven = false) :
    load (some user) = .ok (.mapping defaults) := by
  rw [load, orElse, missing, if_neg Bool.false_ne_true, overlay, overlayEntries]
  rfl

/-- Laying entries over entries is laying one mapping over another. -/
theorem overlay_mapping :
    overlay lower (.mapping es) = overlayValue "" (some (.mapping lower)) (.mapping es) := by
  rw [overlay, overlayValue_mapping]

/-- Nothing but a mapping can be laid over. -/
theorem overlay_of_isMapping (other : v.isMapping = false) :
    overlay lower v = .error (.noSuchPart v.kindWord "items") := by
  cases v with
  | mapping es => cases other
  | _ => rfl

/-- Settings with texts as keys that differ only in the order of entries, and in the order and number
of the texts in lists that extend a default, lead to configurations that are the same up to order and
have one fingerprint. Otherwise they are refused for one reason. -/
theorem load_restated {user user' : Value} (h : Restates extendedPaths user user')
    (held : user.IsMadeOf HoldsCodes) (held' : user'.IsMadeOf HoldsCodes) :
    (∃ config config', load (some user) = .ok config ∧ load (some user') = .ok config' ∧
        Reordered config config' ∧ fingerprint config = fingerprint config') ∨
      IsRefused user ∧ ∃ fault, load (some user) = .error fault ∧
        load (some user') = .error fault := by
  have given_eq := h.isGiven_eq (by simp [extendedPaths])
  cases given : user.isGiven with
  | false =>
    rw [load_of_not_isGiven given, load_of_not_isGiven (given_eq.symm.trans given)]
    exact .inl ⟨_, _, rfl, rfl, .same _, rfl⟩
  | true =>
    rw [load_of_isGiven given, load_of_isGiven (given_eq.symm.trans given)]
    cases mapping : user.isMapping with
    | false =>
      rw [overlay_of_isMapping mapping, overlay_of_isMapping (h.isMapping_eq.symm.trans mapping),
        h.kindWord_eq]
      exact .inr ⟨.inl ⟨given, mapping⟩, _, rfl, rfl⟩
    | true =>
      cases user with
      | mapping es =>
        obtain ⟨fs, rfl, -⟩ := h.entries
        have agree := agree_overlayValue h held held' extends_defaults
        rw [overlay_mapping, overlay_mapping]
        have made (v w) (hv : Value.IsMadeOf HoldsCodes v)
            (hw : overlayValue "" (some (.mapping defaults)) v = .ok w) :
            Value.IsMadeOf HoldsCodes w :=
          isMadeOf_overlayValue hv (fun _ same => Option.some.inj same ▸ isMadeOf_defaults) hw
        generalize first : overlayValue "" (some (.mapping defaults)) (.mapping es) = r at agree
        generalize second : overlayValue "" (some (.mapping defaults)) (.mapping fs) = r' at agree
        cases agree with
        | @both a b same =>
          have one := same.canonical_eq (made _ a held first) (made _ b held' second)
          exact .inl ⟨a, b, rfl, rfl, same, by rw [fingerprint, fingerprint, one]⟩
        | neither refused fault => exact .inr ⟨.inr refused, fault, rfl, rfl⟩
      | _ => cases mapping

/-- Settings with further entries, in which labels come in another order and one of them twice. -/
theorem load_restated_sample :
    let user := Value.mapping
      [("module", .mapping [("library", .text "Qt5Core"), ("retries", .int 2)]),
        ("events", .mapping [("signal_sections", texts ["slots", "emits"])])]
    let user' := Value.mapping
      [("events", .mapping [("signal_sections", texts ["emits", "slots", "emits"])]),
        ("module", .mapping [("retries", .int 2), ("library", .text "Qt5Core")])]
    (Restates extendedPaths user user' ∧ user.IsMadeOf HoldsCodes ∧ user'.IsMadeOf HoldsCodes) ∧
      ∃ config config', load (some user) = .ok config ∧ load (some user') = .ok config' ∧
        Reordered config config' ∧ fingerprint config = fingerprint config' := by
  intro user user'
  have plain : user.IsMadeOf IsPlain := by decide +kernel
  have plain' : user'.IsMadeOf IsPlain := by decide +kernel
  have held := plain.imp fun _ h => h.holdsCharacters.holdsCodes
  have held' := plain'.imp fun _ h => h.holdsCharacters.holdsCodes
  have labels : Relisted (["slots", "emits"].map Value.text)
      (["emits", "slots", "emits"].map Value.text) :=
    ⟨fun s => by simp [or_comm], by simp [isText, text?]⟩
  have restated : Restates extendedPaths user user' := by
    refine restates_mapping (by decide) ?_
    simp only [List.forall_mem_cons]
    refine ⟨⟨fun other => absurd other (by decide), fun _ => ?module, List.forall_mem_nil _⟩,
      ⟨fun _ => ?events, fun other => absurd other (by decide), List.forall_mem_nil _⟩,
      List.forall_mem_nil _⟩
    case module =>
      refine restates_mapping (by decide) ?_
      simp only [List.forall_mem_cons]
      refine ⟨⟨fun other => absurd other (by decide), fun _ => .reordered (.same _),
          List.forall_mem_nil _⟩,
        ⟨fun _ => .reordered (.same _), fun other => absurd other (by decide),
          List.forall_mem_nil _⟩, List.forall_mem_nil _⟩
    case events =>
      refine restates_mapping (by decide) ?_
      simp only [List.forall_mem_cons]
      exact ⟨⟨fun _ => .listed (by decide) labels, List.forall_mem_nil _⟩, List.forall_mem_nil _⟩
  have accepted : ¬ IsRefused user := by
    rintro (⟨-, other⟩ | ⟨path, hp, xs, found, x, hx, other⟩)
    · cases other
    · simp only [extendedPaths, List.mem_cons, List.not_mem_nil, or_false] at hp
      obtain rfl | rfl := hp
      · cases found
      · cases found
        obtain ⟨s, -, rfl⟩ := List.mem_map.1 hx
        cases other
  exact ⟨⟨restated, held, held'⟩, (load_restated restated held held').resolve_right
    fun refused => accepted refused.1⟩

end Config

end Bindery
