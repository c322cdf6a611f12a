import Bindery.Proofs.Obedience

/-!
# What checking a policy guarantees

Before anything is changed, every class, enumeration and kept method that a policy names is looked up
in the tree. For the policies of modules and trees as dumps yield them this is enough: whatever the
check finds, the policy finds when it is applied, although enumerations have got names by then. Main
statements: `isFound_of_validate`, `isApplicable_of_validate`.
-/

namespace Bindery

namespace Tree

/-- In a loaded tree every class has a full name. -/
theorem IsLoaded.hasNamedClasses {t : Tree} (h : t.IsLoaded) : t.hasNamedClasses = true := by
  rw [Tree.hasNamedClasses, List.all_eq_true]
  intro x hx
  have hn : x.chain.isNamed = true := by
    rw [Chain.isNamed, List.all_eq_true]
    intro l hl
    have hc : l ∈ x.chain := (List.takeWhile_sublist _).subset (List.mem_reverse.1 hl)
    obtain ⟨y, hy, -, rfl⟩ := (mem_chain_iff hx).1 hc
    exact (h.label y hy).named
  rw [hn, Bool.or_true]

/-- The members of a declaration of a loaded tree are loaded. -/
theorem IsLoaded.label_of_mem_members {t : Tree} (h : t.IsLoaded) {x : Located}
    (hx : x ∈ t.survey) {m : Decl} (hm : m ∈ x.decl.members) : m.label.IsLoaded := by
  obtain ⟨i, hi⟩ := List.getElem?_of_mem hm
  exact h.label _ (member_mem_survey hx hi)

/-- A class that is needed and found is the one that the name stands for. -/
theorem definition?_of_requireClass {t : Tree} {step : String} {module name : Value} {x : Located}
    (h : t.requireClass step module name = .ok x) : t.definition? name = some x := by
  rw [requireClass] at h
  split at h
  · split at h
    · next found =>
      obtain rfl := Except.ok.inj h
      exact found
    · cases h
  · cases h

end Tree

namespace Policy

/-- The names in a policy can be compared with those of a tree: kept methods have names that form a
set, and enumerations to be made accessible have names that are not empty. -/
structure IsWorded (p : Policy) : Prop where
  /-- The names of the kept methods form a set. -/
  kept : p.stringKeptMethods.all Value.isSimple = true
  /-- The names of the enumerations are texts that are not empty. -/
  enums : (p.publicEnums.all fun entry => entry.all fun e =>
    e.enumName.isText && e.enumName.isGiven) = true

/-- What holds of the known policies and of the usual one holds of the policy of a module. -/
theorem base_cases {P : Policy → Prop} {module : Value} (usual : P { module })
    (special : ∀ e ∈ known, P e.2) : P (base module) := by
  rw [base]
  cases hm : module.text?.bind fun name => known.lookup name with
  | none => exact usual
  | some q =>
    obtain ⟨name, -, hl⟩ := Option.bind_eq_some_iff.1 hm
    obtain ⟨before, after, hk, -⟩ := List.lookup_eq_some_iff.1 hl
    exact special (name, q) (by simp [hk])

/-- The policy of a module has value types of its own, and is what it is for all such modules
otherwise. -/
theorem exists_of_forModule {p : Policy} {module extra : Value} (h : forModule module extra = .ok p) :
    ∃ valueTypes, p = { base module with valueTypes } := by
  rw [forModule] at h
  split at h
  · cases h
  · split at h
    · exact ⟨_, (Except.ok.inj h).symm⟩
    · obtain ⟨added, -, h⟩ := exists_of_bind_eq_ok h
      split at h
      · cases h
      · exact ⟨_, (Except.ok.inj h).symm⟩

/-- The policies of modules have names that can be compared. -/
theorem isWorded_forModule {p : Policy} {module extra : Value} (h : forModule module extra = .ok p) :
    p.IsWorded := by
  obtain ⟨valueTypes, rfl⟩ := exists_of_forModule h
  have kept : ∀ e ∈ known, e.2.stringKeptMethods.all Value.isSimple = true := by decide
  have enums : ∀ e ∈ known, (e.2.publicEnums.all fun entry => entry.all fun c =>
      c.enumName.isText && c.enumName.isGiven) = true := by decide
  have base : (base module).IsWorded := base_cases ⟨rfl, rfl⟩ fun e he => ⟨kept e he, enums e he⟩
  exact ⟨base.kept, base.enums⟩

/-- The policies of modules name anonymous enumerations by a text. -/
theorem isText_typedEnumName {p : Policy} {module extra : Value}
    (h : forModule module extra = .ok p) : p.typedEnumName.isText = true := by
  obtain ⟨valueTypes, rfl⟩ := exists_of_forModule h
  exact base_cases (P := fun p => p.typedEnumName.isText = true) rfl (by decide)

variable {p : Policy} {t : Tree}

/-- A row of checks that is passed was passed by every item. -/
theorem forall_of_checkAll {α : Type} {check : α → Except Fault Unit} {items : List α}
    (h : checkAll check items = .ok ()) : ∀ a ∈ items, check a = .ok () := by
  induction items with
  | nil => simp
  | cons a rest ih =>
    obtain ⟨_, ha, h⟩ := exists_of_bind_eq_ok h
    intro b hb
    rcases List.mem_cons.1 hb with rfl | hb
    · exact ha
    · exact ih h b hb

/-- A class that passed a check is there. -/
theorem isSome_definition? {step : String} {module name : Value}
    (h : (t.requireClass step module name).map (fun _ => ()) = .ok ()) :
    (t.definition? name).isSome = true := by
  cases hr : t.requireClass step module name with
  | ok x => rw [Tree.definition?_of_requireClass hr, Option.isSome_some]
  | error fault =>
    rw [hr] at h
    cases h

/-- An enumeration that bears a name is not anonymous, and keeps the name. -/
theorem name_of_alike {l : Label} (hl : l.IsLoaded) {name : Value} (text : name.isText = true)
    (given : name.isGiven = true) (alike : l.name.alike name = true) (isTyped : Bool) :
    p.typedName isTyped l = l.name := by
  obtain ⟨n, hn⟩ := Value.exists_eq_text hl.named
  obtain ⟨n', rfl⟩ := Value.exists_eq_text text
  rw [hn, Value.alike_text, beq_iff_eq] at alike
  rw [typedName, isAnonymousEnum, hn, alike, given]
  simp

/-- An enumeration that passed the check can be made accessible. -/
theorem isSome_publishedAt? (worded : p.IsWorded) (hl : t.IsLoaded) {entry : Option ClassEnum}
    (he : entry ∈ p.publicEnums) (h : p.checkEnum t entry = .ok ()) :
    (p.publishedAt? t entry).isSome = true := by
  cases entry with
  | none => cases h
  | some e =>
    have hw := List.all_eq_true.1 worded.enums (some e) he
    rw [Option.all_some, Bool.and_eq_true] at hw
    obtain ⟨c, hc, h⟩ := exists_of_bind_eq_ok h
    have hd := Tree.definition?_of_requireClass hc
    have found : (c.decl.findEnum? e.enumName).isSome = true := by
      cases hf : c.decl.findEnum? e.enumName with
      | some m => rfl
      | none =>
        rw [hf] at h
        cases h
    rw [Decl.findEnum?, List.find?_isSome] at found
    obtain ⟨m, hm, hp⟩ := found
    obtain ⟨hm, hr⟩ := List.mem_filter.1 hm
    rw [Bool.and_eq_true] at hp
    have loaded : m.label.IsLoaded := hl.label_of_mem_members (Tree.mem_of_definition? hd).1 hm
    have publish : p.isEnumToPublish t c e m.label = true := by
      rw [isEnumToPublish, name_of_alike loaded hw.1 hw.2 hp.2, Bool.and_eq_true, Bool.and_eq_true]
      exact ⟨⟨hr, hp.1⟩, hp.2⟩
    rw [publishedAt?, Option.bind_some, hd, Option.bind_some, Option.isSome_map, memberIndex?,
      List.findIdx?_isSome, List.any_eq_true]
    exact ⟨m, hm, publish⟩

/-- What a check of a policy finds in a tree. -/
structure IsFound (p : Policy) (t : Tree) : Prop where
  /-- The string class, and in it the kept methods. -/
  string : p.stringClass.isGiven = true → ∃ c, t.definition? p.stringClass = some c ∧
    ∀ method ∈ p.stringKeptMethods, p.checkMethod c method = .ok ()
  /-- The classes whose anonymous enumerations get a name. -/
  typed : ∀ name ∈ p.typedEnumClasses, (t.definition? name).isSome = true
  /-- The enumerations that are made accessible. -/
  enums : ∀ entry ∈ p.publicEnums, p.checkEnum t entry = .ok ()
  /-- The classes of which operators are dropped. -/
  operators : ∀ removal ∈ p.ignoredOperators, (t.definition? removal.className).isSome = true

/-- A policy that passed the check was found as a whole. -/
theorem isFound_of_validate (h : p.validate t = .ok ()) : p.IsFound t := by
  -- The string class is checked first, if there is one; the other checks follow in either case.
  have checked : (p.stringClass.isGiven = true → ∃ c, t.definition? p.stringClass = some c ∧
        ∀ method ∈ p.stringKeptMethods, p.checkMethod c method = .ok ()) ∧
      (do
        checkAll (fun name => (t.requireClass validationStep p.module name).map fun _ => ())
          p.typedEnumClasses
        checkAll (p.checkEnum t) p.publicEnums
        checkAll (fun removal : OperatorRemoval =>
          (t.requireClass validationStep p.module removal.className).map fun _ => ())
          p.ignoredOperators) = .ok () := by
    rw [validate] at h
    cases given : p.stringClass.isGiven with
    | true =>
      rw [if_pos given] at h
      obtain ⟨found, hf, h⟩ := exists_of_bind_eq_ok h
      obtain ⟨_, kept, h⟩ := exists_of_bind_eq_ok h
      exact ⟨fun _ => ⟨found, Tree.definition?_of_requireClass hf, forall_of_checkAll kept⟩, h⟩
    | false =>
      rw [if_neg (Bool.eq_false_iff.1 given)] at h
      exact ⟨nofun, h⟩
  obtain ⟨string, rest⟩ := checked
  obtain ⟨_, typed, rest⟩ := exists_of_bind_eq_ok rest
  obtain ⟨_, enums, operators⟩ := exists_of_bind_eq_ok rest
  exact
    { string
      typed := fun name hn => isSome_definition? (forall_of_checkAll typed name hn)
      enums := forall_of_checkAll enums
      operators := fun removal hr => isSome_definition? (forall_of_checkAll operators removal hr) }

/-- A policy of a module that passed the check on a loaded tree can be applied to it. -/
theorem isApplicable_of_validate (worded : p.IsWorded) (hl : t.IsLoaded)
    (h : p.validate t = .ok ()) : p.IsApplicable t := by
  have found := isFound_of_validate h
  refine ⟨hl.hasNamedClasses, fun given => ?_, found.typed, fun entry he => ?_, found.operators⟩
  · obtain ⟨c, hc, -⟩ := found.string given
    exact ⟨Option.isSome_of_eq_some hc, worded.kept⟩
  · exact isSome_publishedAt? worded hl he (found.enums entry he)

end Policy

end Bindery
