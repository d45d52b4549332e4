import LogicalTable.Columnar.Import
import LogicalTable.Proofs.Columnar.Layouts
import LogicalTable.Proofs.DataType.Logical
import Mathlib.Tactic.TFAE

/-! When two types are stored alike. They are just if nothing is left to tell them apart once logical types
are replaced by their storage, just if their arrays have one layout, and just if they take the same values:
for any two that differ there is a value that only one of them takes. -/
namespace LogicalTable

section Layouts

theorem Primitive.wide_leafType_inj (p q : Primitive) : p.leafType.wide = q.leafType.wide ↔ p = q := by
  cases p <;> cases q <;> decide

mutual

theorem Shape.layout_inj : ∀ s t : Shape,
    s.arrayType.layout = t.arrayType.layout ↔ s.physical = t.physical
  | .primitive p, t => by
    cases t with
    | primitive q =>
      simp [Shape.arrayType, ArrayType.layout, Shape.physical, Primitive.wide_leafType_inj p q]
    | _ => simp [Shape.arrayType, ArrayType.layout, Shape.physical]
  | .list a, t => by
    cases t with
    | list b =>
      simp [Shape.arrayType, ArrayType.layout, Field.layout, Field.plain, Shape.physical,
        DataType.layout_inj a b]
    | _ => simp [Shape.arrayType, ArrayType.layout, Shape.physical]
  | .struct ms, t => by
    cases t with
    | struct ns => simp [Shape.arrayType, ArrayType.layout, Shape.physical, Members.layouts_inj ms ns 0 0]
    | _ => simp [Shape.arrayType, ArrayType.layout, Shape.physical]

theorem DataType.layout_inj : ∀ t u : DataType,
    t.arrayType.layout = u.arrayType.layout ↔ t.physical = u.physical
  | .plain s, .plain s' | .plain s, .logical _ s' _ | .logical _ s _, .plain s'
  | .logical _ s _, .logical _ s' _ => by
    simp [DataType.arrayType, DataType.physical, Shape.layout_inj s s']

/-- Members are named by their position, which does not count. -/
theorem Members.layouts_inj : ∀ (ms ns : Members) (i j : Nat),
    Field.layouts (ms.fields i) = Field.layouts (ns.fields j) ↔ ms.physical = ns.physical
  | .one t, ns, i, j => by
    cases ns with
    | one u =>
      simp [Members.fields, Field.layouts, Field.layout, Field.plain, Members.physical,
        DataType.layout_inj t u]
    | cons u us => cases us <;> simp [Members.fields, Field.layouts, Members.physical]
  | .cons t ts, ns, i, j => by
    cases ns with
    | one u => cases ts <;> simp [Members.fields, Field.layouts, Members.physical]
    | cons u us =>
      simp [Members.fields, Field.layouts, Field.layout, Field.plain, Members.physical,
        DataType.layout_inj t u, Members.layouts_inj ts us (i + 1) (j + 1)]

end

end Layouts

section Values

def Primitive.sample : Primitive → StorageValue
  | int32 => .int 0
  | int64 => .long 0
  | double => .double ⟨0⟩
  | string => .string ""
  | bool => .bool false
  | blob => .blob []

def Members.missing : Members → List StorageValue
  | one _ => [.null]
  | cons _ ts => .null :: ts.missing

theorem Members.admits_missing (ms : Members) : ms.admits ms.missing = true := by
  cases ms with
  | one t => exact t.admits_null
  | cons t ts => simp [missing, admits, t.admits_null, ts.admits_missing]

theorem Members.not_admits_nil (ms : Members) : ms.admits [] = false := by
  cases ms <;> rfl

mutual

/-- Shapes that take the same values are physically the same. -/
theorem Shape.physical_of_admits : ∀ s t : Shape, (∀ v, s.admits v = t.admits v) → s.physical = t.physical
  | .primitive p, t, same => by
    have sample := same p.sample
    cases t with
    | primitive q => cases p <;> cases q <;> first | rfl | cases sample
    | _ => cases p <;> cases sample
  | .list a, t, same => by
    have empty := same (.list [])
    cases t with
    | list b =>
      have items : ∀ v, a.admits v = b.admits v := by
        intro v
        simpa [Shape.admits] using same (.list [v])
      rw [Shape.physical, Shape.physical, DataType.physical_of_admits a b items]
    | primitive q => cases q <;> cases empty
    | struct ns => cases empty
  | .struct ms, t, same => by
    have missing := same (.struct ms.missing)
    rw [Shape.admits, ms.admits_missing] at missing
    cases t with
    | struct ns =>
      have members : ∀ vs, ms.admits vs = ns.admits vs := fun vs => same (.struct vs)
      rw [Shape.physical, Shape.physical, Members.physical_of_admits ms ns members]
    | primitive q => cases q <;> cases missing
    | list b => cases missing

theorem DataType.physical_of_admits : ∀ t u : DataType, (∀ v, t.admits v = u.admits v) →
    t.physical = u.physical
  | .plain s, .plain s', same | .plain s, .logical _ s' _, same | .logical _ s _, .plain s', same
  | .logical _ s _, .logical _ s' _, same => by
    rw [DataType.physical, DataType.physical, Shape.physical_of_admits s s' same]

/-- One member is looked at while the others are missing. -/
theorem Members.physical_of_admits : ∀ ms ns : Members, (∀ vs, ms.admits vs = ns.admits vs) →
    ms.physical = ns.physical
  | .one t, ns, same => by
    cases ns with
    | one u =>
      have values : ∀ v, t.admits v = u.admits v := fun v => same [v]
      rw [Members.physical, Members.physical, DataType.physical_of_admits t u values]
    | cons u us =>
      have single := same [.null]
      simp [Members.admits, t.admits_null, us.not_admits_nil] at single
  | .cons t ts, ns, same => by
    cases ns with
    | one u =>
      have single := same [.null]
      simp [Members.admits, u.admits_null, ts.not_admits_nil] at single
    | cons u us =>
      have later : ∀ vs, ts.admits vs = us.admits vs := by
        intro vs
        simpa [Members.admits, t.admits_null, u.admits_null] using same (.null :: vs)
      have first : ∀ v, t.admits v = u.admits v := by
        intro v
        simpa [Members.admits, ← later, ts.admits_missing] using same (v :: ts.missing)
      rw [Members.physical, Members.physical, DataType.physical_of_admits t u first,
        Members.physical_of_admits ts us later]

end

end Values

section Recovered

mutual

/-- Whether no field inside the type carries a tag. -/
def ArrayType.Untagged : ArrayType → Prop
  | .leaf _ => True
  | .list f | .largeList f => f.Untagged
  | .struct fs => Field.AllUntagged fs

def Field.Untagged : Field → Prop
  | .mk _ t _ m => Tag.ofMetadata m = .none ∧ t.Untagged

def Field.AllUntagged : List Field → Prop
  | [] => True
  | f :: fs => f.Untagged ∧ Field.AllUntagged fs

end

/-- A type without logical types whose arrays have the layout. -/
def DataType.StoredAs (t : DataType) (layout : ArrayType) : Prop :=
  t.physical = t ∧ t.arrayType.layout = layout

theorem LeafType.storedAs_of_primitive? {t : LeafType} {p : Primitive} (h : t.primitive? = some p) :
    (DataType.ofPrimitive p).StoredAs (ArrayType.leaf t).layout := by
  cases t <;> cases h <;> exact ⟨rfl, rfl⟩

theorem Members.storedAs_ofList : ∀ {t : DataType} {ts : List DataType} {f : Field} {fs : List Field}
    (index : Nat), List.Forall₂ (fun t f => t.StoredAs f.type.layout) (t :: ts) (f :: fs) →
    (Members.ofList t ts).physical = Members.ofList t ts ∧
      Field.layouts ((Members.ofList t ts).fields index) = Field.layouts (f :: fs)
  | t, [], .mk name u nullable m, fs, index, stored => by
    obtain _ | ⟨⟨physical, layout⟩, rest⟩ := stored
    cases rest
    simp_all [Members.ofList, Members.physical, Members.fields, Field.layouts, Field.layout, Field.type]
  | t, v :: ts, .mk name u nullable m, fs, index, stored => by
    obtain _ | ⟨⟨physical, layout⟩, rest⟩ := stored
    cases fs with
    | nil => cases rest
    | cons g fs =>
      obtain ⟨members, layouts⟩ := Members.storedAs_ofList (index + 1) rest
      simp_all [Members.ofList, Members.physical, Members.fields, Field.layouts, Field.layout, Field.type]

variable {r : Registry}

open Columnar (importType importField importFields)

mutual

/-- What is recovered from a type without tags has its layout and no logical types. -/
theorem storedAs_importType : ∀ {t : ArrayType} {u : DataType}, importType r t = .ok u → t.Untagged →
    u.StoredAs t.layout
  | .leaf l, u, imported, _ => by
    rw [importType] at imported
    split at imported
    · next p hp =>
      cases imported
      exact LeafType.storedAs_of_primitive? hp
    · cases imported
  | .list f, u, imported, untagged | .largeList f, u, imported, untagged => by
    obtain ⟨item, hitem, ⟨⟩⟩ := bind_eq_ok.1 imported
    obtain ⟨physical, layout⟩ := storedAs_importField hitem untagged
    obtain ⟨name, t, nullable, m⟩ := f
    constructor
    · rw [DataType.list, DataType.physical, Shape.physical, physical]
    · simp [DataType.list, DataType.arrayType, Shape.arrayType, ArrayType.layout, Field.layout, layout,
        Field.type]
  | .struct fs, u, imported, untagged => by
    obtain ⟨ts, hts, made⟩ := bind_eq_ok.1 imported
    have stored := storedAs_importFields hts untagged
    cases stored with
    | nil => cases made
    | cons head tail =>
      cases made
      obtain ⟨members, layouts⟩ := Members.storedAs_ofList 0 (.cons head tail)
      constructor
      · rw [DataType.physical, Shape.physical, members]
      · rw [DataType.arrayType, Shape.arrayType, ArrayType.layout, ArrayType.layout, layouts]

theorem storedAs_importField : ∀ {f : Field} {u : DataType}, importField r f = .ok u → f.Untagged →
    u.StoredAs f.type.layout
  | .mk _ t _ m, u, imported, ⟨tag, untagged⟩ => by
    rw [importField, tag] at imported
    exact storedAs_importType imported untagged

theorem storedAs_importFields : ∀ {fs : List Field} {us : List DataType},
    importFields r fs = .ok us → Field.AllUntagged fs →
    List.Forall₂ (fun u f => u.StoredAs f.type.layout) us fs
  | [], us, imported, _ => by
    cases imported
    exact .nil
  | f :: fs, us, imported, ⟨first, rest⟩ => by
    obtain ⟨u, hu, imported⟩ := bind_eq_ok.1 imported
    obtain ⟨us, hus, ⟨⟩⟩ := bind_eq_ok.1 imported
    exact .cons (storedAs_importField hu first) (storedAs_importFields hus rest)

end

end Recovered

section Agreement

/-- Two types are physically the same just if their arrays are stored alike, and just if no value
tells them apart. -/
theorem DataType.physical_tfae (t u : DataType) :
    [t.physical.same u.physical = true,
      t.physical = u.physical,
      t.arrayType.sameLayout u.arrayType = true,
      ∀ v, t.admits v = u.admits v].TFAE := by
  tfae_have 1 ↔ 2 := by rw [DataType.same_iff, t.bare_physical, u.bare_physical]
  tfae_have 3 ↔ 2 := by rw [ArrayType.sameLayout_iff, DataType.layout_inj]
  tfae_have 2 → 4 := by
    intro same v
    rw [← t.admits_physical, same, u.admits_physical]
  tfae_have 4 → 2 := DataType.physical_of_admits t u
  tfae_finish

theorem ArrayType.sameLayout_equivalence :
    Equivalence fun t u : ArrayType => t.sameLayout u = true := by
  constructor
  · intro t
    exact (sameLayout_iff t t).2 rfl
  · intro t u h
    exact (sameLayout_iff u t).2 ((sameLayout_iff t u).1 h).symm
  · intro t u w h h'
    exact (sameLayout_iff t w).2 (((sameLayout_iff t u).1 h).trans ((sameLayout_iff u w).1 h'))

open Columnar (importType)

/-- Types without logical types are told apart by their layouts. -/
theorem DataType.StoredAs.layout_eq_iff {a b : DataType} {l k : ArrayType} (ha : a.StoredAs l)
    (hb : b.StoredAs k) : l = k ↔ a = b := by
  obtain ⟨physical, rfl⟩ := ha
  obtain ⟨physical', rfl⟩ := hb
  rw [DataType.layout_inj, physical, physical']

/-- The registry does not matter to types without tags. -/
theorem sameLayout_importType {r r' : Registry} {t u : ArrayType} {a b : DataType}
    (untagged : t.Untagged) (untagged' : u.Untagged) (imported : importType r t = .ok a)
    (imported' : importType r' u = .ok b) :
    [t.sameLayout u = true, a.same b = true, a = b].TFAE := by
  have ha := storedAs_importType imported untagged
  have hb := storedAs_importType imported' untagged'
  tfae_have 1 ↔ 3 := by rw [ArrayType.sameLayout_iff, ha.layout_eq_iff hb]
  tfae_have 2 ↔ 3 := by
    rw [DataType.same_iff, ← ha.1, ← hb.1, a.bare_physical, b.bare_physical]
  tfae_finish

/-- One notion of being physically alike. Types are alike by what is left without their logical types, by
the layout of their arrays and by their values; alike in layout is an equivalence of all array types; and
types recovered from arrays without tags are equal just if the layouts of the arrays are alike. -/
theorem physicalShapes_agree :
    (∀ t u : DataType,
      [t.physical.same u.physical = true,
        t.physical = u.physical,
        t.arrayType.sameLayout u.arrayType = true,
        ∀ v, t.admits v = u.admits v].TFAE) ∧
    (Equivalence fun t u : ArrayType => t.sameLayout u = true) ∧
    ∀ (r r' : Registry) (t u : ArrayType) (a b : DataType), t.Untagged → u.Untagged →
      importType r t = .ok a → importType r' u = .ok b →
      [t.sameLayout u = true, a.same b = true, a = b].TFAE := by
  refine ⟨DataType.physical_tfae, ArrayType.sameLayout_equivalence, ?_⟩
  intro r r' t u a b untagged untagged' imported imported'
  exact sameLayout_importType untagged untagged' imported imported'

theorem physicalShapes_agree_names :
    let narrow := ArrayType.list (.mk "item" (.struct [.mk "a" (.leaf .utf8) false .empty,
      .plain "b" (.leaf .binary)]) false .empty)
    let wide := ArrayType.largeList (.plain "x" (.struct [.plain "y" (.leaf .largeUtf8),
      .plain "z" (.leaf .largeBinary)]))
    let stored := DataType.list (.plain (.struct (.cons (.ofPrimitive .string)
      (.one (.ofPrimitive .blob)))))
    let tagged := DataType.list (.logical "pair" (.struct (.cons (.ofPrimitive .string)
      (.one (.ofPrimitive .blob)))) none)
    (narrow.Untagged ∧ wide.Untagged) ∧
      (importType .empty narrow = .ok stored ∧ importType .empty wide = .ok stored) ∧
      narrow.sameLayout wide = true ∧ ∀ v, stored.admits v = tagged.admits v := by
  intro narrow wide stored tagged
  have untagged : narrow.Untagged := ⟨rfl, ⟨rfl, trivial⟩, ⟨rfl, trivial⟩, trivial⟩
  have untagged' : wide.Untagged := ⟨rfl, ⟨rfl, trivial⟩, ⟨rfl, trivial⟩, trivial⟩
  have imported : importType .empty narrow = .ok stored := rfl
  have imported' : importType .empty wide = .ok stored := rfl
  obtain ⟨types, _, recovered⟩ := physicalShapes_agree
  have layouts := (recovered .empty .empty narrow wide stored stored untagged untagged' imported
    imported').out 2 0
  have values := (types stored tagged).out 1 3
  exact ⟨⟨untagged, untagged'⟩, ⟨imported, imported'⟩, layouts.1 rfl, values.1 rfl⟩

end Agreement
end LogicalTable
