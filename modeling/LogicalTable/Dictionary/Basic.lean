import LogicalTable.Columnar.Storage
import LogicalTable.Columnar.Tags

/-! Reading dictionaries of any writer. Each row that is there needs a key, and the first such row
of a key needs the value. -/
namespace LogicalTable

/-- A dictionary chunk with the row that holds the value of each row; none for missing rows. -/
structure Dictionary where
  chunk : Chunk
  value : ArrayType
  positions : List (Option Nat)

namespace Dictionary

def lacks (value : ArrayType) (c : Cell) : Bool := value ≠ .leaf .null && c.isMissing

/-- The rows that hold the values of slots from `row` on, given the first rows of earlier keys. -/
def locate (value : ArrayType) : (row : Nat) → (first : List (Int × Nat)) → List Cell →
    Except LayoutError (List (Option Nat))
  | _, _, [] => .ok []
  | row, first, c :: cs =>
    if c.isMissing then (locate value (row + 1) first cs).map (none :: ·)
    else
      match c.member 0 with
      | .integer key =>
        match first.find? (·.1 = key) with
        | some (_, position) => (locate value (row + 1) first cs).map (some position :: ·)
        | none =>
          if lacks value (c.member 1) then .error (.keyWithoutValue key.toNat row)
          else (locate value (row + 1) ((key, row) :: first) cs).map (some row :: ·)
      | _ => .error (.rowWithoutKey row)

def ofChunk (c : Chunk) : Except Error Dictionary := do
  let (_, value) ← orFail .ofField c.type.dictionaryParts
  let positions ← orFail .layout (locate value.type 0 [] c.cells)
  return ⟨c, value.type, positions⟩

def size (d : Dictionary) : Nat := d.positions.length

def isEmpty (d : Dictionary) : Bool := d.positions.isEmpty

def isMissing (d : Dictionary) (row : Nat) : Bool := d.positions[row]? == some none

def valueAt (d : Dictionary) : Option Nat → Except LayoutError StorageValue
  | none => .ok .null
  | some position =>
    match d.chunk.cells[position]? with
    | some c => d.value.read (c.member 1)
    | none => .error (.arrayRange position d.chunk.size)

def read (d : Dictionary) (row : Nat) : Except LayoutError StorageValue :=
  match d.positions[row]? with
  | some position => d.valueAt position
  | none => .error (.chunkRange row d.size)

def values (d : Dictionary) : Except LayoutError (List StorageValue) := d.positions.mapM d.valueAt

def distinctCount (d : Dictionary) : Nat := (d.positions.filterMap id).eraseDups.length

end Dictionary
end LogicalTable
