import Bindery.Proofs.Reading
import Bindery.Template

/-!
# Templates that cannot be filled

A template of a file name may ask for something that is not there, or may be no template at all.
However it fails, the fault is never one that is reported: a user is told about the configuration and
the dump, not about what a file is to be called. Main statement: `reads_fill`.
-/

namespace Bindery

namespace Template

/-! ## Columns -/

/-- Reading a number comes to no fault that is reported. -/
theorem reads_leadingNumber (cs : List Char) :
    Reads Fault.isUnreported true (leadingNumber cs) := by
  rw [leadingNumber]
  split
  · split
    · exact rfl
    · exact Or.inl rfl
  · exact rfl

namespace Column

/-- Reading a separator comes to no fault that is reported. -/
theorem reads_readSeparator (cs : List Char) :
    Reads Fault.isUnreported true (readSeparator cs) := by
  rw [readSeparator.eq_def]
  split <;> first | exact rfl | exact Or.inl rfl

/-- Reading what is kept comes to no fault that is reported. -/
theorem reads_readKept (cs : List Char) : Reads Fault.isUnreported true (readKept cs) := by
  rw [readKept.eq_def]
  split
  · refine (reads_leadingNumber _).followed fun found _ => ?_
    split
    · exact rfl
    · exact Or.inl rfl
  · exact rfl

/-- Reading the description of a column comes to no fault that is reported. -/
theorem reads_ofChars (isNumber : Bool) (cs : List Char) :
    Reads Fault.isUnreported true (ofChars isNumber cs) := by
  have checked (refused : Bool) (column : Column) : Reads Fault.isUnreported true
      (do if refused then throw .malformedText
          return column) := by
    cases refused
    · exact rfl
    · exact Or.inl rfl
  unfold ofChars
  generalize readAlignment cs = beginning
  obtain ⟨column, isFilled, cs⟩ := beginning
  dsimp only
  refine (reads_leadingNumber _).followed fun width _ => ?_
  refine (reads_readSeparator _).followed fun separator _ => ?_
  refine (reads_readKept _).followed fun kept _ => ?_
  split
  · exact checked _ _
  · exact checked _ _
  · exact Or.inl rfl

/-- Filling a column comes to no fault that is reported. -/
theorem reads_fill (column : Column) (usual : Alignment) (beginning value : List Char) :
    Reads Fault.isUnreported true (column.fill usual beginning value) := by
  rw [fill]
  split
  · exact Or.inl rfl
  · split <;> exact rfl

/-- Laying a text out comes to no fault that is reported. -/
theorem reads_layText (column : Column) (cs : List Char) :
    Reads Fault.isUnreported true (column.layText cs) := by
  rw [layText]
  split
  · exact Or.inl rfl
  · exact column.reads_fill _ _ _

/-- Laying digits out comes to no fault that is reported. -/
theorem reads_layDigits (column : Column) (beginning digits rest : List Char) :
    Reads Fault.isUnreported true (column.layDigits beginning digits rest) := by
  rw [layDigits]
  split <;> exact column.reads_fill _ _ _

/-- Laying a number out comes to no fault that is reported. -/
theorem reads_layNumber (column : Column) (n : Int) :
    Reads Fault.isUnreported true (column.layNumber n) := by
  rw [layNumber]
  dsimp only
  split
  · split
    · exact Or.inl rfl
    · exact column.reads_layDigits _ _ _
  · split
    · exact Or.inl rfl
    · split
      · exact column.reads_fill _ _ _
      · exact Or.inl rfl
  · split
    · exact Or.inl rfl
    · split
      · exact column.reads_layDigits _ _ _
      · exact Or.inl rfl
  · exact Or.inl rfl

end Column

/-! ## Fields -/

/-- Asking a part for something by name comes to no fault that is reported. -/
theorem reads_named (p : Part) (name : String) :
    Reads Fault.isUnreported true (p.named name) := by
  rw [Part.named]
  split
  · exact rfl
  · exact Or.inl rfl

/-- Asking a part for something by position comes to no fault that is reported. -/
theorem reads_at? (p : Part) (index : Part.Index) :
    Reads Fault.isUnreported true (p.at? index) := by
  rw [Part.at?.eq_def]
  dsimp only
  split <;> first | exact Or.inl rfl | (split <;> first | exact rfl | exact Or.inl rfl)

/-- Reading a position comes to no fault that is reported. -/
theorem reads_position? (cs : List Char) : Reads Fault.isUnreported true (position? cs) :=
  (reads_leadingNumber cs).map _

/-- Going on from a part comes to no fault that is reported. -/
theorem reads_pick (found : Part) (cs : List Char) :
    Reads Fault.isUnreported true (pick found cs) := by
  fun_induction pick found cs with
  | case1 found => exact rfl
  | case2 found cs name empty => exact Or.inl rfl
  | case3 found cs name given part here ih => exact ih
  | case4 found cs name given fault missing => exact (reads_named found _).stopped missing
  | case5 found cs unclosed => exact Or.inl rfl
  | case6 found cs inside bracket rest closed empty => exact Or.inl rfl
  | case7 found cs inside bracket rest closed given fault unread =>
    exact (reads_position? inside).stopped unread
  | case8 found cs inside bracket rest closed given position read part here ih => exact ih
  | case9 found cs inside bracket rest closed given position read fault missing =>
    exact (reads_at? found _).stopped missing
  | case10 found cs => exact Or.inl rfl

/-- Finding what a field names comes to no fault that is reported. -/
theorem reads_resolve (setting : String) (value name : List Char) :
    Reads Fault.isUnreported true (resolve setting value name) := by
  rw [resolve]
  split
  · next fault unread => exact (reads_position? _).stopped unread
  · exact Or.inl rfl
  · split
    · exact Or.inl rfl
    · split
      · exact reads_pick _ _
      · exact Or.inl rfl

/-- Converting a part comes to no fault that is reported. -/
theorem reads_convert (mark : Option Char) (part : Part) :
    Reads Fault.isUnreported true (convert mark part) := by
  rw [convert.eq_def]
  split <;> first | exact rfl | exact Or.inl rfl

/-- Laying a part out comes to no fault that is reported. -/
theorem reads_layOut (part : Part) (layout : List Char) :
    Reads Fault.isUnreported true (layOut part layout) := by
  rw [layOut.eq_def]
  split
  · exact rfl
  · exact (Column.reads_ofChars _ _).followed fun column _ => column.reads_layText _
  · exact (Column.reads_ofChars _ _).followed fun column _ => column.reads_layNumber _
  · exact (Column.reads_ofChars _ _).followed fun column _ => column.reads_layNumber _
  · exact Or.inl rfl

/-! ## Templates -/

/-- Filling pieces comes to no fault that is reported if filling layouts does not. -/
theorem reads_fillPieces {fillLayout : List Char → Except Fault (List Char)}
    (h : ∀ layout, Reads Fault.isUnreported true (fillLayout layout)) (setting : String)
    (value : List Char) (ps : List Piece) :
    Reads Fault.isUnreported true (fillPieces fillLayout setting value ps) := by
  induction ps with
  | nil => exact rfl
  | cons p ps ih =>
    cases p with
    | literal c => exact ih.map _
    | broken => exact Or.inl rfl
    | field name mark layout =>
      rw [fillPieces]
      refine (reads_resolve setting value name).followed fun found _ => ?_
      refine (reads_convert mark found).followed fun converted _ => ?_
      have rest (layout : List Char) : Reads Fault.isUnreported true
          (do return (← layOut converted layout) ++ (← fillPieces fillLayout setting value ps)) :=
        (reads_layOut converted layout).followed fun laid _ => ih.followed fun rest _ => rfl
      dsimp only
      split
      · exact (h layout).followed fun layout _ => rest layout
      · exact rest layout

/-- Filling a template to some depth comes to no fault that is reported. -/
theorem reads_fillTo (setting : String) (value : List Char) (depth : Nat) :
    ∀ cs, Reads Fault.isUnreported true (fillTo setting value depth cs) := by
  induction depth with
  | zero => exact fun _ => Or.inl rfl
  | succ depth ih => exact fun cs => reads_fillPieces ih setting value (pieces .outside cs)

/-- Filling a template comes to no fault that is reported. -/
theorem reads_fill (setting value template : String) :
    Reads Fault.isUnreported true (fill setting value template) :=
  (reads_fillTo setting value.toList nesting template.toList).map _

end Template

end Bindery
