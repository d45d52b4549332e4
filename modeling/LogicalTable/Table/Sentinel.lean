import LogicalTable.Columnar.Cell
import LogicalTable.Text.Blank

/-! Integers that stand for missing ones, for readers that cannot mark them. Only columns of `int32`
and `int64` arrays know them; integers within other columns stay as they are. -/
namespace LogicalTable

inductive Sentinel where
  | min
  | max
  /-- One value, which must fit a column's type. -/
  | value (n : Int64)
  deriving DecidableEq, Repr

namespace Sentinel

def ofText? (s : String) : Except LayoutError Sentinel :=
  let t := Text.trim s
  if t = "min" then .ok .min
  else if t = "max" then .ok .max
  else
    match Text.int64? t.toList with
    | some n => .ok (.value n)
    | none => .error (.sentinelText t)

def text : Sentinel → String
  | min => "min"
  | max => "max"
  | value n => Text.decimal n.toInt

/-- An integer that slots of a type can hold. -/
abbrev For (t : ArrayType) : Type := { n : Int // t.admits (.integer n) = true }

def forInt32 : Sentinel → Except LayoutError (For (.leaf .int32))
  | min => .ok ⟨-0x80000000, by decide⟩
  | max => .ok ⟨0x7fffffff, by decide⟩
  | value n =>
    if h : -0x80000000 ≤ n.toInt ∧ n.toInt < 0x80000000 then
      .ok ⟨n.toInt, by simpa [ArrayType.admits, LeafType.admits, LeafType.bounds?] using h⟩
    else .error (.sentinelRange n.toInt)

def forInt64 : Sentinel → For (.leaf .int64)
  | min => ⟨-0x8000000000000000, by decide⟩
  | max => ⟨0x7fffffffffffffff, by decide⟩
  | value n => ⟨n.toInt, by
      simpa [ArrayType.admits, LeafType.admits, LeafType.bounds?] using
        And.intro n.le_toInt n.toInt_lt⟩

def forType (s : Sentinel) : (t : ArrayType) → Except LayoutError (Option (For t))
  | .leaf .int32 => s.forInt32.map some
  | .leaf .int64 => .ok (some s.forInt64)
  | _ => .ok none

end Sentinel

namespace Cell

def fill (n : Int) : Cell → Cell
  | missing => integer n
  | c => c

def drop (n : Int) : Cell → Cell
  | integer m => if m = n then missing else integer m
  | c => c

end Cell

namespace ArrayType

theorem admits_missing_of_integer {t : ArrayType} {n : Int} (h : t.admits (.integer n) = true) :
    t.admits .missing = true := by
  cases t <;> simp_all [admits, LeafType.admits]

theorem admits_fill {t : ArrayType} {n : Int} (h : t.admits (.integer n) = true) {c : Cell}
    (hc : t.admits c = true) : t.admits (c.fill n) = true := by
  cases c <;> simp_all [Cell.fill]

theorem admits_drop {t : ArrayType} (n : Int) {c : Cell} (hc : t.admits c = true) :
    t.admits (c.drop n) = true := by
  cases c with
  | integer m =>
    by_cases h : m = n
    · simpa [Cell.drop, h] using admits_missing_of_integer hc
    · simpa [Cell.drop, h] using hc
  | _ => exact hc

end ArrayType

namespace Chunk

def fill (c : Chunk) (n : Sentinel.For c.type) : Chunk where
  type := c.type
  cells := c.cells.map (Cell.fill n.1)
  fit := fun x h => by
    obtain ⟨d, hd, rfl⟩ := List.mem_map.1 h
    exact ArrayType.admits_fill n.2 (c.fit d hd)

def drop (c : Chunk) (n : Int) : Chunk where
  type := c.type
  cells := c.cells.map (Cell.drop n)
  fit := fun x h => by
    obtain ⟨d, hd, rfl⟩ := List.mem_map.1 h
    exact ArrayType.admits_drop n (c.fit d hd)

def insertSentinel (s : Sentinel) (c : Chunk) : Except LayoutError Chunk :=
  (s.forType c.type).map fun n? =>
    match n? with
    | some n => c.fill n
    | none => c

def removeSentinel (s : Sentinel) (c : Chunk) : Except LayoutError Chunk :=
  (s.forType c.type).map fun n? =>
    match n? with
    | some n => c.drop n.1
    | none => c

end Chunk
end LogicalTable
