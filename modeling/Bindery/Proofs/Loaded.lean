import Bindery.Proofs.Agreement
import Bindery.Proofs.Place
import Bindery.Proofs.Reading

/-!
# Freshly loaded trees

A dump yields units with declarations in them. Every name is a text, nothing is tagged, no event is
there, only what is open has declarations of any kind in it, and the methods among the members of a
class are methods. What reading a record establishes holds of whatever is read. Main statements:
`HoldsAsRead.ofRecord`, `Tree.isLoaded_ofDocument`, `Tree.IsLoaded.isShaped`.
-/

namespace Bindery

/-- The results for a list are those of its items. -/
theorem forall₂_of_mapM {α β : Type} {f : α → Except Fault β} {as : List α} {bs : List β}
    (h : as.mapM f = .ok bs) : List.Forall₂ (fun a b => f a = .ok b) as bs := by
  induction as generalizing bs with
  | nil =>
    obtain rfl := Except.ok.inj h
    exact .nil
  | cons a as ih =>
    rw [List.mapM_cons] at h
    obtain ⟨b, hb, h⟩ := exists_of_bind_eq_ok h
    obtain ⟨rest, hr, h⟩ := exists_of_bind_eq_ok h
    obtain rfl := Except.ok.inj h
    exact .cons hb (ih hr)

/-- The results for a list come from its items. -/
theorem exists_of_mem_mapM {α β : Type} {f : α → Except Fault β} {as : List α} {bs : List β}
    (h : as.mapM f = .ok bs) : ∀ b ∈ bs, ∃ a ∈ as, f a = .ok b := by
  have each := forall₂_of_mapM h
  clear h
  induction each with
  | nil => simp
  | cons first _ ih =>
    intro b hb
    rcases List.mem_cons.1 hb with rfl | hb
    · exact ⟨_, List.mem_cons_self, first⟩
    · obtain ⟨a, ha, hf⟩ := ih b hb
      exact ⟨a, List.mem_cons_of_mem _ ha, hf⟩

/-- What has a result, although its faults are reported as others, has that result. -/
theorem eq_ok_of_mapError {α : Type} {first : Except Fault α} {report : Fault → Fault} {a : α}
    (h : first.mapError report = .ok a) : first = .ok a := by
  cases first with
  | ok b => exact h
  | error fault => cases h

namespace Form

/-- Whether there are records of declarations of this form. -/
def hasRecords (f : Form) : Bool := !f.isUnit && !f.isEnumItem && !f.isEvent

/-- There are records of all but units, enumerators and events. -/
theorem hasRecords_iff {f : Form} : f.hasRecords = true ↔
    f.isUnit = false ∧ f.isEnumItem = false ∧ f.isEvent = false := by
  simp [hasRecords, and_assoc]

/-- A form as a record yields it. -/
structure IsReadFrom (record : Value) (f : Form) : Prop where
  /-- There are records of it. -/
  hasRecords : f.hasRecords = true
  /-- It is not marked as a value type. -/
  unmarked : f.unmarked = f
  /-- What is callable takes and returns what the record says. -/
  signature : ∀ s, f.signature? = some s → Decl.signatureOf record = .ok s

end Form

/-- A label as a dump yields it: named by texts, and neither tagged nor marked. -/
structure Label.IsLoaded (l : Label) : Prop where
  /-- The target-facing name is a text. -/
  named : l.name.isText = true
  /-- The name in the header is a text. -/
  headerNamed : l.headerName.isText = true
  /-- It is generated. -/
  treatment : l.treatment = .generate
  /-- It is not suppressed. -/
  suppression : l.suppression = .bool false
  /-- It is no event. -/
  event : l.form.isEvent = false
  /-- It is not marked as a value type. -/
  unmarked : l.form.unmarked = l.form

namespace Decl

/-- A declaration as a dump yields it. -/
inductive IsLoaded : Decl → Prop
  | node (l : Label) (ms : List Decl) (label : l.IsLoaded)
    (members : ∀ m ∈ ms, IsLoaded m)
    (units : ∀ m ∈ ms, m.form.isUnit = false)
    (scope : ∀ m ∈ ms, l.form.isScope = true)
    (items : ∀ m ∈ ms, l.form.isOpen = true ∨ m.form.isEnumItem = true)
    (roles : ∀ m ∈ ms, m.role = l.form.roleIn m.form) : IsLoaded (node l ms)

/-- The label of a loaded declaration. -/
theorem IsLoaded.label {d : Decl} (h : d.IsLoaded) : d.label.IsLoaded := by
  cases h
  assumption

/-- In another role a declaration is loaded all the same. -/
theorem IsLoaded.withRole {d : Decl} (h : d.IsLoaded) (role : Role) :
    (d.withRole role).IsLoaded := by
  cases h with
  | node l ms label members units scope items roles =>
    exact .node _ ms ⟨label.1, label.2, label.3, label.4, label.5, label.6⟩ members units scope
      items roles

/-- What is arranged are the members. -/
theorem mem_of_mem_arrange {ms : List Decl} {m : Decl} (h : m ∈ arrange ms) : m ∈ ms := by
  obtain ⟨role, -, h⟩ := List.mem_flatMap.1 h
  exact List.mem_of_mem_filter h

/-- The members of an owner are those it was given, each in its role. -/
theorem exists_ownedBy_of_mem {owner : Form} {ms : List Decl} {m : Decl}
    (h : m ∈ arrange (ms.map (ownedBy owner))) : ∃ e ∈ ms, e.ownedBy owner = m :=
  List.mem_map.1 (mem_of_mem_arrange h)

@[simp] theorem form_ownedBy (owner : Form) (d : Decl) : (d.ownedBy owner).form = d.form := by
  cases d
  rfl

/-- An owner has its members in the roles they take there. -/
theorem role_of_mem_owning {owner : Form} {ms : List Decl} {m : Decl}
    (h : m ∈ arrange (ms.map (ownedBy owner))) : m.role = owner.roleIn m.form := by
  obtain ⟨e, -, rfl⟩ := exists_ownedBy_of_mem h
  rw [form_ownedBy]
  cases e
  rfl

/-- A scope is loaded if its label is and its members are, none of them a unit, and only enumerators
where it is not open. -/
theorem isLoaded_owning {l : Label} {ms : List Decl} (label : l.IsLoaded)
    (scope : l.form.isScope = true)
    (members : ∀ m ∈ ms, m.IsLoaded ∧ m.form.isUnit = false ∧
      (l.form.isOpen = true ∨ m.form.isEnumItem = true)) : (owning l ms).IsLoaded := by
  refine .node l _ label (fun m hm => ?_) (fun m hm => ?_) (fun _ _ => scope) (fun m hm => ?_)
    fun m => role_of_mem_owning
  all_goals obtain ⟨e, he, rfl⟩ := exists_ownedBy_of_mem hm
  · exact (members e he).1.withRole _
  · exact (form_ownedBy l.form e).symm ▸ (members e he).2.1
  · exact (form_ownedBy l.form e).symm ▸ (members e he).2.2

/-- Classes are read without a mark. -/
theorem isValue_of_classTraitsOf {record : Value} {traits : ClassTraits}
    (h : classTraitsOf record = .ok traits) : traits.isValue = false := by
  obtain ⟨given, -, h⟩ := exists_of_bind_eq_ok h
  obtain ⟨bases, -, h⟩ := exists_of_bind_eq_ok h
  obtain ⟨incomplete, -, h⟩ := exists_of_bind_eq_ok h
  obtain rfl := Except.ok.inj h
  rfl

/-- The label of a record has the parts that every record has, and a form of the given kind that
the record yields. -/
theorem exists_form_of_labelOf {source : String} {record : Value} {l : Label}
    (h : labelOf source record = .ok l) : ∃ parts form, commonParts record = .ok parts ∧
      parts.label form = l ∧ parts.kind = .text form.word ∧ form.IsReadFrom record := by
  obtain ⟨parts, hp, h⟩ := exists_of_bind_eq_ok h
  suffices ∃ form : Form, parts.label form = l ∧ parts.kind = .text form.word ∧
      form.IsReadFrom record by
    obtain ⟨form, hl⟩ := this
    exact ⟨parts, form, hp, hl⟩
  split at h
  · next kind => exact ⟨_, Except.ok.inj h, kind, rfl, rfl, by simp [Form.signature?]⟩
  · next kind =>
    obtain ⟨traits, ht, h⟩ := exists_of_bind_eq_ok h
    have unmarked : (Form.classType traits).unmarked = .classType traits := by
      rw [Form.unmarked, ← isValue_of_classTraitsOf ht]
    exact ⟨_, Except.ok.inj h, kind, rfl, unmarked, by simp [Form.signature?]⟩
  · next kind => exact ⟨_, Except.ok.inj h, kind, rfl, rfl, by simp [Form.signature?]⟩
  · next kind =>
    obtain ⟨signature, hs, h⟩ := exists_of_bind_eq_ok h
    obtain ⟨traits, -, h⟩ := exists_of_bind_eq_ok h
    exact ⟨_, Except.ok.inj h, kind, rfl, rfl, fun s he => Option.some.inj he ▸ hs⟩
  -- Functions and delegates take and return something, too.
  iterate 2
    next kind =>
      obtain ⟨signature, hs, h⟩ := exists_of_bind_eq_ok h
      exact ⟨_, Except.ok.inj h, kind, rfl, rfl, fun s he => Option.some.inj he ▸ hs⟩
  -- What is left are fields, free variables and properties.
  iterate 3
    next kind =>
      obtain ⟨type, -, h⟩ := exists_of_bind_eq_ok h
      exact ⟨_, Except.ok.inj h, kind, rfl, rfl, by simp [Form.signature?]⟩
  · cases h

/-- The label of a record is loaded and no unit. -/
theorem isLoaded_labelOf {source : String} {record : Value} {l : Label}
    (h : labelOf source record = .ok l) : l.IsLoaded ∧ l.form.isUnit = false := by
  obtain ⟨parts, form, -, rfl, -, read⟩ := exists_form_of_labelOf h
  obtain ⟨unit, -, event⟩ := Form.hasRecords_iff.1 read.hasRecords
  exact ⟨⟨rfl, rfl, rfl, rfl, event, read.unmarked⟩, unit⟩

/-- An enumerator of a record is loaded. -/
theorem isLoaded_enumItemOf {record : Value} {d : Decl} (h : enumItemOf record = .ok d) :
    d.IsLoaded ∧ d.form.isUnit = false ∧ d.form.isEnumItem = true := by
  obtain ⟨name, -, h⟩ := exists_of_bind_eq_ok h
  obtain ⟨value, -, h⟩ := exists_of_bind_eq_ok h
  obtain rfl := Except.ok.inj h
  refine ⟨.node _ _ ⟨rfl, rfl, rfl, rfl, rfl, rfl⟩ ?_ ?_ ?_ ?_ ?_, rfl, rfl⟩ <;> simp

/-! ## Induction on what is read -/

/-- A property that reading a record establishes, if it holds of the declarations below. -/
structure HoldsAsRead (source : String) (P : Decl → Prop) : Prop where
  /-- It holds of what has no members. -/
  leaf : ∀ record l, labelOf source record = .ok l → l.form.isScope = false → P (node l [])
  /-- It holds of what is open, if it holds of the members. -/
  scope : ∀ record l ms, labelOf source record = .ok l → l.form.isOpen = true → (∀ m ∈ ms, P m) →
    P (owning l ms)
  /-- It holds of enumerations. -/
  enumeration : ∀ record l items, labelOf source record = .ok l → l.form = .enumeration →
    (∀ m ∈ items, ∃ item, enumItemOf item = .ok m) → P (owning l items)

namespace HoldsAsRead

variable {source : String} {P : Decl → Prop}

mutual

/-- It holds of what a record yields. -/
theorem ofRecord (holds : HoldsAsRead source P) (record : Value) {d : Decl}
    (h : Decl.ofRecord source record = .ok d) : P d :=
  match record with
  | .mapping es => by
    rw [Decl.ofRecord] at h
    obtain ⟨l, hl, h⟩ := exists_of_bind_eq_ok h
    have whole : ∀ ms, Decl.nestedRecords source es = .ok ms → l.form.isOpen = true →
        P (owning l ms) :=
      fun ms hms ho => holds.scope _ l ms hl ho (nestedRecords holds es hms)
    split at h
    · next hf =>
      obtain ⟨ms, hms, h⟩ := exists_of_bind_eq_ok h
      obtain rfl := Except.ok.inj h
      exact whole ms hms (by rw [hf]; rfl)
    · next hf =>
      obtain ⟨ms, hms, h⟩ := exists_of_bind_eq_ok h
      obtain rfl := Except.ok.inj h
      exact whole ms hms (by rw [hf]; rfl)
    · next hf =>
      obtain ⟨listed, -, h⟩ := exists_of_bind_eq_ok h
      obtain ⟨records, -, h⟩ := exists_of_bind_eq_ok h
      obtain ⟨items, hi, h⟩ := exists_of_bind_eq_ok h
      obtain rfl := Except.ok.inj h
      refine holds.enumeration _ l items hl hf fun m hm => ?_
      obtain ⟨item, -, hm⟩ := exists_of_mem_mapM hi m hm
      exact ⟨item, hm⟩
    · next namespaces classes enumerations =>
      obtain rfl := Except.ok.inj h
      refine holds.leaf _ l hl ?_
      have unit := (isLoaded_labelOf hl).2
      cases hf : l.form with
      | unit path => simp [hf, Form.isUnit] at unit
      | nameSpace => exact absurd hf namespaces
      | classType traits => exact absurd hf (classes traits)
      | enumeration => exact absurd hf enumerations
      | _ => rfl
  | .null | .bool _ | .int _ | .float _ | .text _ | .list _ => by simp [Decl.ofRecord] at h
termination_by structural record

/-- It holds of what nested records yield. -/
theorem nestedRecords (holds : HoldsAsRead source P) (es : List (String × Value)) {ds : List Decl}
    (h : Decl.nestedRecords source es = .ok ds) : ∀ d ∈ ds, P d :=
  match es with
  | [] => by
    obtain rfl : [] = ds := Except.ok.inj h
    simp
  | (key, v) :: es => by
    rw [Decl.nestedRecords] at h
    split at h
    · exact ofRecords holds v h
    · exact nestedRecords holds es h
termination_by structural es

/-- It holds of what the records of a part yield. -/
theorem ofRecords (holds : HoldsAsRead source P) (v : Value) {ds : List Decl}
    (h : Decl.ofRecords source v = .ok ds) : ∀ d ∈ ds, P d :=
  match v with
  | .list items => ofItems holds items h
  | .text s | .mapping s => by
    rw [Decl.ofRecords] at h
    split at h
    · obtain rfl : [] = ds := Except.ok.inj h
      simp
    · cases h
  | .null | .bool _ | .int _ | .float _ => by
    simp only [Decl.ofRecords] at h
    split at h
    · cases h
    · obtain rfl : [] = ds := Except.ok.inj h
      simp
termination_by structural v

/-- It holds of what a list of records yields. -/
theorem ofItems (holds : HoldsAsRead source P) (vs : List Value) {ds : List Decl}
    (h : Decl.ofItems source vs = .ok ds) : ∀ d ∈ ds, P d :=
  match vs with
  | [] => by
    obtain rfl : [] = ds := Except.ok.inj h
    simp
  | v :: vs => by
    rw [Decl.ofItems] at h
    obtain ⟨d, hd, h⟩ := exists_of_bind_eq_ok h
    obtain ⟨rest, hr, h⟩ := exists_of_bind_eq_ok h
    obtain rfl := Except.ok.inj h
    intro e he
    rcases List.mem_cons.1 he with rfl | he
    · exact ofRecord holds v hd
    · exact ofItems holds vs hr e he
termination_by structural vs

end

end HoldsAsRead

/-- Whatever is read is loaded and no unit. -/
theorem holdsAsRead_isLoaded (source : String) :
    HoldsAsRead source fun d => d.IsLoaded ∧ d.form.isUnit = false where
  leaf record l hl _ :=
    ⟨.node l [] (isLoaded_labelOf hl).1 (by simp) (by simp) (by simp) (by simp) (by simp),
      (isLoaded_labelOf hl).2⟩
  scope record l ms hl ho members :=
    ⟨isLoaded_owning (isLoaded_labelOf hl).1 (Form.isScope_of_isOpen ho) fun m hm =>
      ⟨(members m hm).1, (members m hm).2, Or.inl ho⟩, (isLoaded_labelOf hl).2⟩
  enumeration record l items hl hf members := by
    refine ⟨isLoaded_owning (isLoaded_labelOf hl).1 (by rw [hf]; rfl) fun m hm => ?_,
      (isLoaded_labelOf hl).2⟩
    obtain ⟨item, hm⟩ := members m hm
    obtain ⟨loaded, unit, isItem⟩ := isLoaded_enumItemOf hm
    exact ⟨loaded, unit, Or.inr isItem⟩

end Decl

namespace Tree

/-- A tree as a dump yields it. -/
structure IsLoaded (t : Tree) : Prop where
  /-- Nothing was done to it yet. -/
  stage : t.stage = .parsed
  /-- It has loaded units. -/
  units : ∀ d ∈ t.units, d.IsLoaded ∧ d.form.isUnit = true

/-- What a unit record yields is a loaded unit. -/
theorem isLoaded_unitOf {source : String} {record : Value} {d : Decl}
    (h : unitOf source record = .ok d) : d.IsLoaded ∧ d.form.isUnit = true := by
  cases record with
  | mapping es =>
    obtain ⟨name, -, h⟩ := exists_of_bind_eq_ok h
    obtain ⟨path, -, h⟩ := exists_of_bind_eq_ok h
    obtain ⟨ms, hms, h⟩ := exists_of_bind_eq_ok h
    obtain rfl := Except.ok.inj h
    refine ⟨Decl.isLoaded_owning ⟨rfl, rfl, rfl, rfl, rfl, rfl⟩ rfl fun m hm => ?_, rfl⟩
    obtain ⟨loaded, unit⟩ := (Decl.holdsAsRead_isLoaded source).nestedRecords es hms m hm
    exact ⟨loaded, unit, Or.inl rfl⟩
  | _ => cases h

/-- The units of a document come from unit records, and nothing was done to them yet. -/
theorem exists_unitOf_of_ofDocument {source : String} {document : Value} {t : Tree}
    (h : ofDocument source document = .ok t) :
    t.stage = .parsed ∧ ∀ d ∈ t.units, ∃ record, unitOf source record = .ok d := by
  rw [ofDocument] at h
  split at h
  · obtain ⟨records, -, h⟩ := exists_of_bind_eq_ok h
    obtain ⟨units, hu, h⟩ := exists_of_bind_eq_ok h
    obtain rfl := Except.ok.inj h
    refine ⟨rfl, fun d hd => ?_⟩
    obtain ⟨record, -, hr⟩ := exists_of_mem_mapM hu d hd
    exact ⟨record, eq_ok_of_mapError hr⟩
  · cases h

/-- What a document yields is a loaded tree. -/
theorem isLoaded_ofDocument {source : String} {document : Value} {t : Tree}
    (h : ofDocument source document = .ok t) : t.IsLoaded where
  stage := (exists_unitOf_of_ofDocument h).1
  units d hd := by
    obtain ⟨record, hr⟩ := (exists_unitOf_of_ofDocument h).2 d hd
    exact isLoaded_unitOf hr

/-- Every declaration of a loaded tree is loaded. -/
theorem IsLoaded.decl {t : Tree} (h : t.IsLoaded) : ∀ x ∈ t.survey, x.decl.IsLoaded := by
  refine survey_induction ?_ ?_
  · intro i d hd
    exact (h.units d (List.mem_of_getElem? hd)).1
  · intro x _ hx i m hm
    obtain ⟨s, d⟩ := x
    cases hx with
    | node l ms label members units scope items roles =>
      exact members m (List.mem_of_getElem? hm)

/-- Every label of a loaded tree is loaded. -/
theorem IsLoaded.label {t : Tree} (h : t.IsLoaded) : ∀ x ∈ t.survey, x.label.IsLoaded :=
  fun x hx => (h.decl x hx).label

/-- Nothing is out in a loaded tree. -/
theorem IsLoaded.isIgnored {t : Tree} (h : t.IsLoaded) :
    ∀ x ∈ t.survey, x.isIgnored = false := by
  intro x hx
  rw [← Bool.not_eq_true, isIgnored_iff hx]
  rintro ⟨y, hy, -, ho⟩
  have hl := h.label y hy
  rw [Label.isOut, Label.isSuppressed, hl.suppression, hl.treatment] at ho
  simp [Value.isGiven] at ho

/-- What the form of a declaration says of its place, at any time from the dump on. -/
structure IsShaped (t : Tree) : Prop where
  /-- The units are on top. -/
  unit : ∀ x ∈ t.survey, x.label.form.isUnit = true ↔ x.site.scope = []
  /-- All but enumerators stand in what is open. -/
  items : ∀ x ∈ t.survey, x.label.form.isEnumItem = false →
    ∀ l ∈ x.site.scope, l.form.isOpen = true
  /-- The methods of a class are methods. -/
  methods : ∀ x ∈ t.survey, x.label.role = .method → x.site.scope ≠ [] →
    x.label.form.isMethod = true
  /-- Everything stands in scopes. -/
  scopes : ∀ x ∈ t.survey, ∀ l ∈ x.site.scope, l.form.isScope = true

/-- Only methods take the role of methods. -/
theorem isMethod_of_roleIn {owner f : Form} (h : owner.roleIn f = .method) :
    f.isMethod = true := by
  cases owner <;> cases f <;> first | rfl | simp [Form.roleIn, Form.isClass, Form.classTraits?] at h

/-- A loaded tree is shaped. -/
theorem IsLoaded.isShaped {t : Tree} (h : t.IsLoaded) : t.IsShaped := by
  have hd := h.decl
  have members : ∀ x ∈ t.survey, ∀ (i : Nat) (m : Decl), x.decl.members[i]? = some m →
      m.form.isUnit = false ∧ (x.label.form.isOpen = true ∨ m.form.isEnumItem = true) ∧
      m.role = x.label.form.roleIn m.form ∧ x.label.form.isScope = true := by
    intro x hx i m hm
    have hx := hd x hx
    obtain ⟨s, d⟩ := x
    cases hx with
    | node l ms label members units scope items roles =>
      have hm := List.mem_of_getElem? hm
      exact ⟨units m hm, items m hm, roles m hm, scope m hm⟩
  refine ⟨survey_induction ?_ ?_, survey_induction ?_ ?_, survey_induction ?_ ?_,
    survey_induction ?_ ?_⟩
  · intro i d hi
    exact iff_of_true (h.units d (List.mem_of_getElem? hi)).2 rfl
  · intro x hx _ i m hm
    refine iff_of_false ?_ (by simp [Located.chain, Site.chain])
    exact Bool.eq_false_iff.1 (members x hx i m hm).1
  · intro i d _ _ l hl
    exact absurd hl (by simp [Site.child, Site.top])
  · intro x hx ih i m hm hi l hl
    have ho : x.label.form.isOpen = true :=
      (members x hx i m hm).2.1.resolve_right (Bool.eq_false_iff.1 hi)
    rcases List.mem_cons.1 hl with rfl | hl
    · exact ho
    · refine ih ?_ l hl
      cases hf : x.label.form <;> first | rfl | simp [hf, Form.isOpen] at ho
  · intro i d _ _ hs
    exact absurd rfl hs
  · intro x hx _ i m hm hr _
    exact isMethod_of_roleIn ((members x hx i m hm).2.2.1.symm.trans hr)
  · intro i d _ l hl
    exact absurd hl (by simp [Site.child, Site.top])
  · intro x hx ih i m hm l hl
    rcases List.mem_cons.1 hl with rfl | hl
    · exact (members x hx i m hm).2.2.2
    · exact ih l hl

/-- A dump of two headers, one of the module `Gui` with a private class and a signal, and one of
the module `Core`. -/
def sampleDump : Value :=
  .mapping [("translation_units", .list [
    .mapping [("name", .text "color.h"), ("file_path", .text "include/QtGui/color.h"),
      ("declarations", .list [
        .mapping [("kind", .text "class"), ("name", .text "PrivateColor"),
          ("declarations", .list [.mapping [("kind", .text "method"), ("name", .text "depth")]])],
        .mapping [("kind", .text "class"), ("name", .text "Palette"),
          ("declarations", .list [.mapping [("kind", .text "method"), ("name", .text "changed"),
            ("section", .text "Q_SIGNALS")]])]])],
    .mapping [("name", .text "object.h"), ("file_path", .text "include/QtCore/object.h"),
      ("declarations", .list [.mapping [("kind", .text "class"), ("name", .text "Object")]])]])]

/-- The tree of that dump. -/
def sampleTree : Tree where
  units := [
    .node { name := .text "color.h", headerName := .text "color.h",
            form := .unit "include/QtGui/color.h" } [
      .node { name := .text "PrivateColor", headerName := .text "PrivateColor",
              form := .classType ⟨[], false, false⟩ } [
        .node { name := .text "depth", headerName := .text "depth", role := .method,
                form := .method ⟨[], "void"⟩ ⟨false, false, false, false, .null, .plain⟩ } []],
      .node { name := .text "Palette", headerName := .text "Palette",
              form := .classType ⟨[], false, false⟩ } [
        .node { name := .text "changed", headerName := .text "changed", role := .method,
                form := .method ⟨[], "void"⟩
                  ⟨false, false, false, false, .text "Q_SIGNALS", .plain⟩ } []]],
    .node { name := .text "object.h", headerName := .text "object.h",
            form := .unit "include/QtCore/object.h" } [
      .node { name := .text "Object", headerName := .text "Object",
              form := .classType ⟨[], false, false⟩ } []]]

/-- The sample is the tree of its dump. -/
theorem ofDocument_sampleDump : ofDocument "dump.yml" sampleDump = .ok sampleTree := rfl

end Tree

end Bindery
