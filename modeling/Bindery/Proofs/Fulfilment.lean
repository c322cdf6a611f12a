import Bindery.Proofs.Naming
import Bindery.Proofs.Sources

/-!
# What was checked stays there

A policy may be checked long before it is applied. In between, declarations are renamed and
suppressed, anonymous enumerations get names and classes get events; but the full names of classes
and the names of enumerations that have one stay. So a tree that has what a policy names has it for
all time to come, and the policy is applied without a fault. Main statements:
`Policy.IsFound.isMet`, `Policy.isLasting_isMet`, `Policy.validated_applies`.
-/

namespace Bindery

/-- Whether a label is that of an enumeration which bears the given name; an anonymous one bears
none. -/
structure Label.IsEnumNamed (l : Label) (name : Value) : Prop where
  /-- It stands among the nested declarations of its class. -/
  role : l.role = .nested
  /-- It is an enumeration. -/
  enumeration : l.form.isEnumeration = true
  /-- It is not anonymous. -/
  given : l.name.isGiven = true
  /-- It has the name. -/
  alike : l.name.alike name = true

/-- An enumeration that bears a name is not anonymous. -/
theorem Label.IsEnumNamed.isAnonymousEnum {l : Label} {name : Value} (h : l.IsEnumNamed name) :
    Policy.isAnonymousEnum l = false := by
  rw [Policy.isAnonymousEnum, h.given, Bool.not_true, Bool.and_false]

/-- An enumeration that bears a name keeps it: only anonymous ones get a name, and no enumeration is
recased. -/
theorem Located.MayEdit.isEnumNamed {x : Located} {l : Label} {name : Value} (h : x.MayEdit l)
    (hx : x.label.IsEnumNamed name) : l.IsEnumNamed name := by
  have same : l.name = x.label.name := by
    cases h with
    | markValue => exact Policy.name_markValue x.label
    | nameEnum _ anonymous =>
      rw [hx.isAnonymousEnum] at anonymous
      cases anonymous
    | recase _ _ _ _ target =>
      rw [RenameTarget.ofForm?_of_isScope (Form.isScope_of_isEnumeration hx.enumeration)] at target
      cases target
    | _ => rfl
  exact ⟨h.agrees.role.trans hx.role, h.agrees.isEnumeration.trans hx.enumeration,
    same ▸ hx.given, same ▸ hx.alike⟩

namespace Tree

/-- Whether all methods have a name in the header. -/
def HasHeaderNames (t : Tree) : Prop :=
  ∀ x ∈ t.survey, x.label.role = .method → x.label.headerName.isText = true

/-- In a loaded tree everything has a name in the header. -/
theorem IsLoaded.hasHeaderNames {t : Tree} (h : t.IsLoaded) : t.HasHeaderNames :=
  fun x hx _ => (h.label x hx).headerNamed

/-- Methods keep their names in the header. -/
theorem isLasting_hasHeaderNames : IsLasting HasHeaderNames where
  advance _ _ h := h
  relabel {t f} hf h y hy role := by
    obtain ⟨x, hx, rfl⟩ := mem_survey_relabel.1 hy
    rw [Located.label_relabel] at role ⊢
    rw [(hf x hx).agrees.headerName]
    exact h x hx ((hf x hx).agrees.role.symm.trans role)
  extend {t rule g} hg h y hy role := by
    rcases hg.gainsUnder.cases y hy with ⟨x, hx, rfl⟩ | ⟨x, hx, i, e, he, rfl⟩
    · rw [Located.label_extend] at role ⊢
      exact h x hx role
    · rw [Located.label_member, he.role] at role
      cases role

end Tree

namespace Policy

variable {p : Policy} {t : Tree}

/-- A tree has what a policy names. -/
structure IsMet (p : Policy) (t : Tree) : Prop where
  /-- The tree is as trees are from the dump on. -/
  orderly : t.IsOrderly
  /-- The string class is there, and the names that are kept form a set. -/
  string : p.stringClass.isGiven = true →
    (t.definition? p.stringClass).isSome = true ∧ p.stringKeptMethods.all Value.isSimple = true
  /-- The classes are there whose anonymous enumerations get a name. -/
  typed : ∀ name ∈ p.typedEnumClasses, (t.definition? name).isSome = true
  /-- The enumerations are there that are made accessible, under their names. -/
  enums : ∀ entry ∈ p.publicEnums, ∃ e, entry = some e ∧
    ∃ c, t.definition? e.className = some c ∧ ∃ m ∈ c.decl.members, m.label.IsEnumNamed e.enumName
  /-- The classes are there of which operators are dropped. -/
  operators : ∀ removal ∈ p.ignoredOperators, (t.definition? removal.className).isSome = true

/-- A tree has what an earlier one had if names stand for the same classes, and these have the
enumerations that they had. -/
theorem IsMet.carry {t' : Tree} (h : p.IsMet t) (orderly : t'.IsOrderly) (later : Located → Located)
    (defined : ∀ name, t'.definition? name = (t.definition? name).map later)
    (enums : ∀ c ∈ t.survey, ∀ m ∈ c.decl.members, ∀ name, m.label.IsEnumNamed name →
      ∃ m' ∈ (later c).decl.members, m'.label.IsEnumNamed name) : p.IsMet t' where
  orderly := orderly
  string given := by
    rw [defined, Option.isSome_map]
    exact h.string given
  typed name hn := by
    rw [defined, Option.isSome_map]
    exact h.typed name hn
  enums entry he := by
    obtain ⟨e, hentry, c, hc, m, hm, named⟩ := h.enums entry he
    refine ⟨e, hentry, later c, ?_, enums c (Tree.mem_of_definition? hc).1 m hm _ named⟩
    rw [defined, hc, Option.map_some]
  operators removal hr := by
    rw [defined, Option.isSome_map]
    exact h.operators removal hr

/-- What a tree has lasts. -/
theorem isLasting_isMet (p : Policy) : Tree.IsLasting p.IsMet where
  advance t stage h := h.carry (Tree.isLasting_isOrderly.advance t stage h.orderly) id
    (fun _ => Option.map_id'.symm) fun _ _ m hm _ named => ⟨m, hm, named⟩
  relabel {t f} hf h := by
    have agrees : t.AgreesUnder f := fun x hx => (hf x hx).agrees
    refine h.carry (Tree.isLasting_isOrderly.relabel hf h.orderly) (Located.relabel f)
      (Tree.definition?_relabel h.orderly.shaped agrees) fun c hc m hm name named => ?_
    obtain ⟨i, hi⟩ := List.getElem?_of_mem hm
    refine ⟨m.relabel f ((c.site.inside c.label).child i), List.mem_of_getElem? (i := i) ?_, ?_⟩
    · rw [Located.members_relabel, Decl.getElem?_relabelAll, hi, Option.map_some, Nat.zero_add]
    · have kept := (hf _ (Tree.member_mem_survey hc hi)).isEnumNamed named
      rw [← Located.label_relabel f, Located.relabel_member, Located.label_member] at kept
      exact kept
  extend {t rule g} hg h := by
    refine h.carry (Tree.isLasting_isOrderly.extend hg h.orderly) (Located.extend g)
      (Tree.definition?_extend hg.gainsUnder) fun c _ m hm name named => ?_
    have there : m.label ∈ (c.extend g).decl.members.map Decl.label := by
      rw [EventRule.map_label_members_extend, List.map_append]
      exact List.mem_append_left _ (List.mem_map_of_mem hm)
    obtain ⟨m', hm', same⟩ := List.mem_map.1 there
    exact ⟨m', hm', same ▸ named⟩

/-- A policy can be applied to a tree that has what it names. -/
theorem IsMet.isApplicable (h : p.IsMet t) : p.IsApplicable t where
  named := h.orderly.named
  string := h.string
  typed := h.typed
  published entry he := by
    obtain ⟨e, hentry, c, hc, m, hm, named⟩ := h.enums entry he
    rw [hentry, publishedAt?, Option.bind_some, hc, Option.bind_some, Option.isSome_map,
      memberIndex?, List.findIdx?_isSome, List.any_eq_true]
    refine ⟨m, hm, ?_⟩
    rw [isEnumToPublish, typedName, named.isAnonymousEnum, Bool.false_and, named.role,
      named.enumeration]
    exact named.alike
  operators := h.operators

/-- Kept methods that passed the check have names that form a set. -/
theorem isSimple_of_checkMethod (header : t.HasHeaderNames) {c : Located} (hc : c ∈ t.survey)
    {method : Value} (h : p.checkMethod c method = .ok ()) : method.isSimple = true := by
  rw [checkMethod] at h
  split at h
  · next some =>
    rw [Bool.not_eq_true', List.isEmpty_eq_false_iff_exists_mem] at some
    obtain ⟨m, hm⟩ := some
    obtain ⟨hm, alike⟩ := List.mem_filter.1 hm
    obtain ⟨hm, role⟩ := List.mem_filter.1 hm
    obtain ⟨i, hi⟩ := List.getElem?_of_mem hm
    have text : m.headerName.isText = true :=
      header _ (Tree.member_mem_survey hc hi) (beq_iff_eq.1 role)
    obtain ⟨s, hn⟩ := Value.exists_eq_text text
    rw [hn] at alike
    rw [Value.eq_text_of_text_alike alike]
    rfl
  · cases h

/-- An enumeration that passed the check is there under its name. -/
theorem exists_isEnumNamed_of_checkEnum
    (names : ∀ e, some e ∈ p.publicEnums → ∃ s : String, e.enumName = .text s ∧ s ≠ "")
    {entry : Option ClassEnum} (he : entry ∈ p.publicEnums) (h : p.checkEnum t entry = .ok ()) :
    ∃ e, entry = some e ∧ ∃ c, t.definition? e.className = some c ∧
      ∃ m ∈ c.decl.members, m.label.IsEnumNamed e.enumName := by
  cases entry with
  | none => cases h
  | some e =>
    obtain ⟨c, hc, h⟩ := exists_of_bind_eq_ok h
    refine ⟨e, rfl, c, Tree.definition?_of_requireClass hc, ?_⟩
    cases hf : c.decl.findEnum? e.enumName with
    | none =>
      rw [hf] at h
      cases h
    | some m =>
      obtain ⟨hm, role⟩ := List.mem_filter.1 (List.mem_of_find?_eq_some hf)
      have hp := List.find?_some hf
      rw [Bool.and_eq_true] at hp
      obtain ⟨s, hs, nonempty⟩ := names e he
      have name : m.label.name = .text s := Value.eq_text_of_alike (hs ▸ hp.2)
      refine ⟨m, hm, beq_iff_eq.1 role, hp.1, ?_, hp.2⟩
      rw [name]
      simpa [Value.isGiven] using nonempty

/-- A tree has what was found when the policy was checked. -/
theorem IsFound.isMet (found : p.IsFound t) (orderly : t.IsOrderly) (header : t.HasHeaderNames)
    (names : ∀ e, some e ∈ p.publicEnums → ∃ s : String, e.enumName = .text s ∧ s ≠ "") :
    p.IsMet t where
  orderly := orderly
  string given := by
    obtain ⟨c, hc, kept⟩ := found.string given
    refine ⟨Option.isSome_of_eq_some hc, List.all_eq_true.2 fun method hm => ?_⟩
    exact isSimple_of_checkMethod header (Tree.mem_of_definition? hc).1 (kept method hm)
  typed := found.typed
  enums entry he := exists_isEnumNamed_of_checkEnum names he (found.enums entry he)
  operators := found.operators

/-- If a policy whose enumerations have names passes the check at any time from the dump on, it is
applied without a fault then and at any later time. -/
theorem validated_applies {source : String} {document : Value} {start now later : Tree}
    (loaded : Tree.ofDocument source document = .ok start) (before : start.Steps now)
    (names : ∀ e, some e ∈ p.publicEnums → ∃ s : String, e.enumName = .text s ∧ s ≠ "")
    (valid : p.validate now = .ok ()) (after : now.Steps later) (w : Work) (hw : w.tree = later)
    (running : w.fault = none) : ((Pass.normalize p).work w).fault = none := by
  have isLoaded := Tree.isLoaded_ofDocument loaded
  have orderly := Tree.isLasting_isOrderly.steps before isLoaded.isOrderly
  have header := Tree.isLasting_hasHeaderNames.steps before isLoaded.hasHeaderNames
  have found : p.IsMet now := (isFound_of_validate valid).isMet orderly header names
  have met : p.IsMet later := p.isLasting_isMet.steps after found
  subst hw
  exact ((apply_turned p met.orderly.shaped running).done met.isApplicable).fault

/-- The dump of one header, with a class that has an anonymous enumeration before one with a name. -/
def itemDump : Value :=
  .mapping [("translation_units", .list [
    .mapping [("name", .text "qitem.h"), ("file_path", .text "include/QtWidgets/qitem.h"),
      ("declarations", .list [.mapping [("kind", .text "class"), ("name", .text "QItem"),
        ("declarations", .list [.mapping [("kind", .text "enum")],
          .mapping [("kind", .text "enum"), ("name", .text "Extension")],
          .mapping [("kind", .text "method"), ("name", .text "type")]])]])]])]

/-- The tree of that dump. -/
def itemTree : Tree where
  units := [
    .node { name := .text "qitem.h", headerName := .text "qitem.h",
            form := .unit "include/QtWidgets/qitem.h" } [
      .node { name := .text "QItem", headerName := .text "QItem",
              form := .classType ⟨[], false, false⟩ } [
        .node { name := .text "", headerName := .text "", form := .enumeration } [],
        .node { name := .text "Extension", headerName := .text "Extension",
                form := .enumeration } [],
        .node { name := .text "type", headerName := .text "type", role := .method,
                form := .method ⟨[], "void"⟩ ⟨false, false, false, false, .null, .plain⟩ } []]]]

/-- A policy that names something of every kind in that tree. -/
def ofItem : Policy where
  stringClass := .text "QItem"
  stringKeptMethods := [.text "type"]
  typedEnumClasses := [.text "QItem"]
  publicEnums := [some ⟨.text "QItem", .text "Extension"⟩]
  ignoredOperators := [⟨.text "QItem", .conversion, .text "int"⟩]

/-- What the sample policy names stays there although another policy gives the anonymous enumeration
the very name that is looked for. -/
theorem validated_applies_sample :
    let other : Policy :=
      { typedEnumClasses := [.text "QItem"], typedEnumName := .text "Extension" }
    let later := ((Pass.normalize other).work { tree := itemTree }).tree
    ofItem.validate itemTree = .ok () ∧ later.survey.map (·.label.name) =
        [.text "qitem.h", .text "QItem", .text "Extension", .text "Extension", .text "type"] ∧
      ((Pass.normalize ofItem).work { tree := later }).fault = none := by
  intro other later
  have valid : ofItem.validate itemTree = .ok () := by decide +kernel
  have names : ∀ e, some e ∈ ofItem.publicEnums →
      ∃ s : String, e.enumName = .text s ∧ s ≠ "" := by
    intro e he
    obtain rfl := Option.some.inj (List.mem_singleton.1 he)
    exact ⟨"Extension", rfl, by decide⟩
  have loaded : Tree.ofDocument "dump.yml" itemDump = .ok itemTree := rfl
  refine ⟨valid, by decide +kernel, ?_⟩
  exact validated_applies loaded .refl names valid
    (.single (.pass (.normalize other) { tree := itemTree } rfl)) { tree := later } rfl rfl

end Policy

end Bindery
