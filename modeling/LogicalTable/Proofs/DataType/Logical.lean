import LogicalTable.DataType.Converter

/-! Logical types wherever they occur in a type, and what shapes that are alike up to converters or
up to logical types have in common. -/
namespace LogicalTable

mutual

/-- Whether every identifier and storage of a logical type in the shape satisfies `p`. -/
def Shape.EveryLogical (p : String → Shape → Prop) : Shape → Prop
  | .primitive _ => True
  | .list item => item.EveryLogical p
  | .struct members => members.EveryLogical p

def DataType.EveryLogical (p : String → Shape → Prop) : DataType → Prop
  | .plain s => s.EveryLogical p
  | .logical id s _ => p id s ∧ s.EveryLogical p

def Members.EveryLogical (p : String → Shape → Prop) : Members → Prop
  | .one t => t.EveryLogical p
  | .cons t ts => t.EveryLogical p ∧ ts.EveryLogical p

end

mutual

theorem Shape.EveryLogical.imp₂ {p q w : String → Shape → Prop}
    (h : ∀ id u, p id u → q id u → w id u) : ∀ {s : Shape},
    s.EveryLogical p → s.EveryLogical q → s.EveryLogical w
  | .primitive _, _, _ => trivial
  | .list _, hp, hq => DataType.EveryLogical.imp₂ h hp hq
  | .struct _, hp, hq => Members.EveryLogical.imp₂ h hp hq

/-- What two conditions give together holds wherever both do. -/
theorem DataType.EveryLogical.imp₂ {p q w : String → Shape → Prop}
    (h : ∀ id u, p id u → q id u → w id u) : ∀ {t : DataType},
    t.EveryLogical p → t.EveryLogical q → t.EveryLogical w
  | .plain _, hp, hq => Shape.EveryLogical.imp₂ h hp hq
  | .logical id s _, hp, hq => ⟨h id s hp.1 hq.1, Shape.EveryLogical.imp₂ h hp.2 hq.2⟩

theorem Members.EveryLogical.imp₂ {p q w : String → Shape → Prop}
    (h : ∀ id u, p id u → q id u → w id u) : ∀ {ts : Members},
    ts.EveryLogical p → ts.EveryLogical q → ts.EveryLogical w
  | .one _, hp, hq => DataType.EveryLogical.imp₂ h hp hq
  | .cons _ _, hp, hq =>
    ⟨DataType.EveryLogical.imp₂ h hp.1 hq.1, Members.EveryLogical.imp₂ h hp.2 hq.2⟩

end

mutual

theorem Shape.physical_bare : ∀ s : Shape, s.bare.physical = s.physical
  | .primitive _ => rfl
  | .list t => by rw [Shape.bare, Shape.physical, Shape.physical, t.physical_bare]
  | .struct ts => by rw [Shape.bare, Shape.physical, Shape.physical, ts.physical_bare]

theorem DataType.physical_bare : ∀ t : DataType, t.bare.physical = t.physical
  | .plain s => by rw [DataType.bare, DataType.physical, DataType.physical, s.physical_bare]
  | .logical _ s _ => by rw [DataType.bare, DataType.physical, DataType.physical, s.physical_bare]

theorem Members.physical_bare : ∀ ts : Members, ts.bare.physical = ts.physical
  | .one t => by rw [Members.bare, Members.physical, Members.physical, t.physical_bare]
  | .cons t ts => by
    rw [Members.bare, Members.physical, Members.physical, t.physical_bare, ts.physical_bare]

end

mutual

theorem Shape.bare_physical : ∀ s : Shape, s.physical.bare = s.physical
  | .primitive _ => rfl
  | .list t => by rw [Shape.physical, Shape.bare, t.bare_physical]
  | .struct ts => by rw [Shape.physical, Shape.bare, ts.bare_physical]

theorem DataType.bare_physical : ∀ t : DataType, t.physical.bare = t.physical
  | .plain s => by rw [DataType.physical, DataType.bare, s.bare_physical]
  | .logical _ s _ => by rw [DataType.physical, DataType.bare, s.bare_physical]

theorem Members.bare_physical : ∀ ts : Members, ts.physical.bare = ts.physical
  | .one t => by rw [Members.physical, Members.bare, t.bare_physical]
  | .cons t ts => by rw [Members.physical, Members.bare, t.bare_physical, ts.bare_physical]

end

/-- Shapes that differ in converters alone have the same physical shape. -/
theorem Shape.physical_eq_of_bare_eq {s t : Shape} (h : s.bare = t.bare) :
    s.physical = t.physical := by
  rw [← s.physical_bare, h, t.physical_bare]

theorem Shape.samePhysical_iff {s t : Shape} :
    s.samePhysical t = true ↔ s.physical = t.physical := by
  rw [samePhysical, same_iff, bare_physical, bare_physical]

mutual

/-- What a shape can store is told by its physical form. -/
theorem Shape.admits_physical : ∀ (s : Shape) (v : StorageValue), s.physical.admits v = s.admits v
  | .primitive _, _ => rfl
  | .list t, v => by
    cases v with
    | list vs => simp only [Shape.physical, Shape.admits, t.admits_physical]
    | _ => rfl
  | .struct ts, v => by
    cases v with
    | struct vs => exact ts.admits_physical vs
    | _ => rfl

theorem DataType.admits_physical : ∀ (t : DataType) (v : StorageValue),
    t.physical.admits v = t.admits v
  | .plain s, v => s.admits_physical v
  | .logical _ s _, v => s.admits_physical v

theorem Members.admits_physical : ∀ (ts : Members) (vs : List StorageValue),
    ts.physical.admits vs = ts.admits vs
  | .one t, vs => by
    rcases vs with _ | ⟨v, _ | ⟨w, vs⟩⟩
    · rfl
    · exact t.admits_physical v
    · rfl
  | .cons t ts, vs => by
    cases vs with
    | nil => rfl
    | cons v vs =>
      rw [Members.physical, Members.admits, Members.admits, t.admits_physical, ts.admits_physical]

end

end LogicalTable
