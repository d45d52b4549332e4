import LogicalTable.Proofs.Columnar.Readable

/-! Layouts of arrays. Arrays of two types hold values alike if the types have one normal form, from
which the names, nullability and metadata of members are left out and the widths of offsets. No type has
both the layout of a shape and that of a dictionary. -/
namespace LogicalTable

mutual

/-- The type without what does not count for the values of its arrays. -/
def ArrayType.layout : ArrayType → ArrayType
  | .leaf t => .leaf t.wide
  | .list f | .largeList f => .largeList f.layout
  | .struct fs => .struct (Field.layouts fs)

def Field.layout : Field → Field
  | .mk _ t _ _ => .plain "" t.layout

def Field.layouts : List Field → List Field
  | [] => []
  | f :: fs => f.layout :: Field.layouts fs

end

mutual

/-- Layouts agree just if the normal forms do. -/
theorem ArrayType.sameLayout_iff : ∀ t u : ArrayType, t.sameLayout u = true ↔ t.layout = u.layout
  | .leaf t, u => by cases u <;> simp [ArrayType.sameLayout, ArrayType.layout]
  | .list f, u => by cases u <;> simp [ArrayType.sameLayout, ArrayType.layout, Field.sameLayout_iff f]
  | .largeList f, u => by
    cases u <;> simp [ArrayType.sameLayout, ArrayType.layout, Field.sameLayout_iff f]
  | .struct fs, u => by
    cases u <;> simp [ArrayType.sameLayout, ArrayType.layout, Field.sameLayouts_iff fs]

theorem Field.sameLayout_iff : ∀ f g : Field, f.sameLayout g = true ↔ f.layout = g.layout
  | .mk _ t _ _, .mk _ u _ _ => by
    simp [Field.sameLayout, Field.layout, Field.plain, ArrayType.sameLayout_iff t u]

theorem Field.sameLayouts_iff : ∀ fs gs : List Field,
    Field.sameLayouts fs gs = true ↔ Field.layouts fs = Field.layouts gs
  | [], gs => by cases gs <;> simp [Field.sameLayouts, Field.layouts]
  | f :: fs, gs => by
    cases gs <;> simp [Field.sameLayouts, Field.layouts, Field.sameLayout_iff f, Field.sameLayouts_iff fs]

end

/-- Whether arrays of the type are stored as values of a shape are. -/
def ArrayType.PlainOver (s : Shape) (t : ArrayType) : Prop := t.layout = s.arrayType.layout

def ArrayType.DictionaryOver (s : Shape) (t : ArrayType) : Prop :=
  ∃ (width : DictKey) (key value : Field), t = .struct [key, value] ∧
    key.type = .leaf width.leafType ∧ value.type.PlainOver s

namespace ArrayType

theorem plainOver_iff {s : Shape} {t : ArrayType} :
    t.PlainOver s ↔ t.sameLayout s.arrayType = true :=
  (sameLayout_iff t s.arrayType).symm

theorem dictionaryParts_eq_ok_iff {t : ArrayType} {width : DictKey} {value : Field} :
    t.dictionaryParts = .ok (width, value) ↔
      ∃ key : Field, t = .struct [key, value] ∧ key.type = .leaf width.leafType := by
  constructor
  · intro parts
    obtain ⟨name, k, nullable, m, rfl, found⟩ := dictionaryParts_eq_ok parts
    refine ⟨.mk name (.leaf k) nullable m, rfl, ?_⟩
    cases k <;> cases found <;> rfl
  · rintro ⟨key, rfl, hk⟩
    simp only [dictionaryParts, hk, DictKey.ofLeafType?_leafType]

theorem dictionaryOver_iff {s : Shape} {t : ArrayType} :
    t.DictionaryOver s ↔
      ∃ width value, t.dictionaryParts = .ok (width, value) ∧ value.type.PlainOver s := by
  constructor
  · rintro ⟨width, key, value, type, hk, plain⟩
    exact ⟨width, value, dictionaryParts_eq_ok_iff.2 ⟨key, type, hk⟩, plain⟩
  · rintro ⟨width, value, parts, plain⟩
    obtain ⟨key, type, hk⟩ := dictionaryParts_eq_ok_iff.1 parts
    exact ⟨width, key, value, type, hk, plain⟩

end ArrayType

/-- Nothing is stored as the keys of dictionaries are. -/
theorem DataType.layout_ne_key (width : DictKey) (t : DataType) :
    (ArrayType.leaf width.leafType).layout ≠ t.arrayType.layout := by
  have shapes : ∀ s : Shape, (ArrayType.leaf width.leafType).layout ≠ s.arrayType.layout := by
    intro s
    cases s with
    | primitive p => cases width <;> cases p <;> decide
    | list _ => nofun
    | struct _ => nofun
  cases t with
  | plain s => exact shapes s
  | logical _ s _ => exact shapes s

/-- What has the layout of a dictionary, whatever its values are, is no plain storage. -/
theorem Shape.not_plainOver (s : Shape) {t : ArrayType} {width : DictKey} {value : Field}
    (parts : t.dictionaryParts = .ok (width, value)) : ¬ t.PlainOver s := by
  obtain ⟨⟨name, type, nullable, m⟩, rfl, rfl⟩ := ArrayType.dictionaryParts_eq_ok_iff.1 parts
  intro plain
  cases s with
  | primitive p => cases plain
  | list _ => cases plain
  | struct ms =>
    -- The first member would be stored as a key is.
    cases ms with
    | one t =>
      injection plain with members
      cases congrArg List.length members
    | cons t ts =>
      injection plain with members
      injection members with first _
      injection first with _ type
      exact DataType.layout_ne_key width t type

end LogicalTable
