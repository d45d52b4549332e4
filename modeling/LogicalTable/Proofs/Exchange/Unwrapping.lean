import LogicalTable.Exchange.Import
import LogicalTable.Proofs.DataType.Logical

/-! Types without the host's own factories, and types whose logical types all carry the converters
of a registry. Both are what reading a schema document makes of the types that were written. -/
namespace LogicalTable

open Exchange (isHostWrapper)

mutual

/-- The shape with every identifier left out that names the host's factory for what it wraps. The
innermost ones go first, so that an outer one is judged by what is left under it. -/
def Shape.unwrapped : Shape → Shape
  | .primitive p => .primitive p
  | .list item => .list item.unwrapped
  | .struct members => .struct members.unwrapped

def DataType.unwrapped : DataType → DataType
  | .plain s => .plain s.unwrapped
  | .logical id s c =>
    if isHostWrapper id s.unwrapped then .plain s.unwrapped else .logical id s.unwrapped c

def Members.unwrapped : Members → Members
  | .one t => .one t.unwrapped
  | .cons t ts => .cons t.unwrapped ts.unwrapped

end

mutual

/-- The shape with the converters that a registry has for its identifiers. -/
def Shape.resolvedIn (r : Registry) : Shape → Shape
  | .primitive p => .primitive p
  | .list item => .list (item.resolvedIn r)
  | .struct members => .struct (members.resolvedIn r)

def DataType.resolvedIn (r : Registry) : DataType → DataType
  | .plain s => .plain (s.resolvedIn r)
  | .logical id s _ => .logical id (s.resolvedIn r) (r.find? id)

def Members.resolvedIn (r : Registry) : Members → Members
  | .one t => .one (t.resolvedIn r)
  | .cons t ts => .cons (t.resolvedIn r) (ts.resolvedIn r)

end

/-- Whether the identifier is registered for storage of the same physical shape. -/
def Registry.Serves (r : Registry) (id : String) (s : Shape) : Prop :=
  ∃ c, r.find? id = some c ∧ c.storage.physical = s.physical

mutual

theorem Shape.bare_resolvedIn (r : Registry) : ∀ s : Shape, (s.resolvedIn r).bare = s.bare
  | .primitive _ => rfl
  | .list t => by rw [Shape.resolvedIn, Shape.bare, Shape.bare, t.bare_resolvedIn]
  | .struct ts => by rw [Shape.resolvedIn, Shape.bare, Shape.bare, ts.bare_resolvedIn]

theorem DataType.bare_resolvedIn (r : Registry) : ∀ t : DataType, (t.resolvedIn r).bare = t.bare
  | .plain s => by rw [DataType.resolvedIn, DataType.bare, DataType.bare, s.bare_resolvedIn]
  | .logical _ s _ => by rw [DataType.resolvedIn, DataType.bare, DataType.bare, s.bare_resolvedIn]

theorem Members.bare_resolvedIn (r : Registry) : ∀ ts : Members, (ts.resolvedIn r).bare = ts.bare
  | .one t => by rw [Members.resolvedIn, Members.bare, Members.bare, t.bare_resolvedIn]
  | .cons t ts => by
    rw [Members.resolvedIn, Members.bare, Members.bare, t.bare_resolvedIn, ts.bare_resolvedIn]

end

namespace Exchange

/-- Converters do not count for what the host's factories wrap. -/
theorem isHostWrapper_bare (id : String) (s : Shape) :
    isHostWrapper id s.bare = isHostWrapper id s := by
  unfold isHostWrapper
  cases hostClass? id with
  | none => rfl
  | some name =>
    cases s with
    | primitive p => rfl
    | struct members => rfl
    | list item =>
      simp only [Shape.bare]
      -- The type of the items only counts where the class is one for lists of a primitive.
      cases beforeEnd? "ListValueFactory".toList name with
      | none => rfl
      | some start =>
        cases start with
        | nil => rfl
        | cons c cs =>
          dsimp only
          cases hostPrimitive? (c :: cs) with
          | none => cases item <;> rfl
          | some p =>
            cases item with
            | logical id s c => rfl
            | plain t => cases t <;> rfl

theorem isHostWrapper_eq_of_bare_eq {s t : Shape} (id : String) (h : s.bare = t.bare) :
    isHostWrapper id s = isHostWrapper id t := by
  rw [← isHostWrapper_bare id s, h, isHostWrapper_bare]

end Exchange

mutual

theorem Shape.unwrapped_eq_self : ∀ s : Shape,
    s.EveryLogical (fun id t => isHostWrapper id t = false) → s.unwrapped = s
  | .primitive _, _ => rfl
  | .list t, h => by rw [Shape.unwrapped, t.unwrapped_eq_self h]
  | .struct ts, h => by rw [Shape.unwrapped, ts.unwrapped_eq_self h]

/-- Where no host factory occurs there is nothing to leave out. -/
theorem DataType.unwrapped_eq_self : ∀ t : DataType,
    t.EveryLogical (fun id s => isHostWrapper id s = false) → t.unwrapped = t
  | .plain s, h => by rw [DataType.unwrapped, s.unwrapped_eq_self h]
  | .logical id s c, h => by
    rw [DataType.unwrapped, s.unwrapped_eq_self h.2, h.1]
    rfl

theorem Members.unwrapped_eq_self : ∀ ts : Members,
    ts.EveryLogical (fun id s => isHostWrapper id s = false) → ts.unwrapped = ts
  | .one t, h => by rw [Members.unwrapped, t.unwrapped_eq_self h]
  | .cons t ts, h => by rw [Members.unwrapped, t.unwrapped_eq_self h.1, ts.unwrapped_eq_self h.2]

end

namespace Column

def mapType (f : DataType → DataType) (c : Column) : Column := { c with type := f c.type }

end Column

namespace Schema

def mapTypes (f : DataType → DataType) (s : Schema) : Schema := ⟨s.columns.map (Column.mapType f)⟩

end Schema
end LogicalTable
