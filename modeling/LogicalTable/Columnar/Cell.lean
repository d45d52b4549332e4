import LogicalTable.Columnar.ArrayType
import LogicalTable.Error

/-! The slots of columnar arrays, row by row. A row of structs keeps members also where it is
missing itself; they stay hidden until the row's presence is changed. -/
namespace LogicalTable

inductive Cell where
  | missing
  | bool (b : Bool)
  | integer (n : Int)
  | float (x : Binary64)
  | text (s : String)
  | bytes (bs : List UInt8)
  | list (items : List Cell)
  | struct (present : Bool) (members : List Cell)

namespace Cell

def isMissing : Cell → Bool
  | missing => true
  | struct present _ => !present
  | _ => false

def members : Cell → List Cell
  | struct _ ms => ms
  | _ => []

def items : Cell → List Cell
  | list cs => cs
  | _ => []

def member (c : Cell) (i : Nat) : Cell := c.members[i]?.getD .missing

/-- The slots of lists over the slots of all their items. A row that is there holds the items from
its offset up to the next one. -/
def lists (items : List Cell) : (offsets : List Nat) → (present : List Bool) → List Cell
  | start :: stop :: offsets, p :: ps =>
    (if p then list ((items.drop start).take (stop - start)) else missing) ::
      lists items (stop :: offsets) ps
  | _, _ => []

def structs : (columns : List (List Cell)) → (present : List Bool) → List Cell
  | _, [] => []
  | columns, p :: ps =>
    struct p (columns.map fun c => c.headD missing) :: structs (columns.map List.tail) ps

end Cell

namespace LeafType

/-- First integer of the type, and the one behind the last. Slots of other types count as words. -/
def bounds? : LeafType → Option (Int × Int)
  | int8 => some (-0x80, 0x80)
  | int16 => some (-0x8000, 0x8000)
  | int32 | date32 => some (-0x80000000, 0x80000000)
  | int64 | date64 | other _ => some (-0x8000000000000000, 0x8000000000000000)
  | uint8 => some (0, 0x100)
  | uint16 => some (0, 0x10000)
  | uint32 => some (0, 0x100000000)
  | uint64 => some (0, 0x10000000000000000)
  | _ => none

def admits (t : LeafType) : Cell → Bool
  | .missing => true
  | .bool _ => t == boolean
  | .integer n =>
    match t.bounds? with
    | some (low, high) => low ≤ n && n < high
    | none => false
  | .float _ => t == float16 || t == float32 || t == float64
  | .text _ => t == utf8 || t == largeUtf8 || t == utf8View
  | .bytes _ => t == binary || t == largeBinary
  | .list _ | .struct _ _ => false

end LeafType

mutual

def ArrayType.admits : ArrayType → Cell → Bool
  | .leaf t, c => t.admits c
  | .list f, c | .largeList f, c =>
    match c with
    | .missing => true
    | .list cs => cs.all fun c => f.admits c
    | _ => false
  | .struct fs, c =>
    match c with
    | .struct _ cs => Field.admitAll fs cs
    | _ => false

def Field.admits : Field → Cell → Bool
  | .mk _ t _ _, c => t.admits c

def Field.admitAll : List Field → List Cell → Bool
  | [], [] => true
  | f :: fs, c :: cs => f.admits c && Field.admitAll fs cs
  | _, _ => false

end

mutual

/-- Whether members that must not be missing are there, wherever the struct or list around them
is. -/
def ArrayType.complete : ArrayType → Cell → Bool
  | .leaf _, _ => true
  | .list f, c | .largeList f, c => c.items.all fun c => f.complete true c
  | .struct fs, c => Field.completeAll (!c.isMissing) fs c.members

def Field.complete (around : Bool) : Field → Cell → Bool
  | .mk _ t nullable _, c => (nullable || !around || !c.isMissing) && t.complete c

def Field.completeAll (around : Bool) : List Field → List Cell → Bool
  | f :: fs, c :: cs => f.complete around c && Field.completeAll around fs cs
  | _, _ => true

end

def ArrayType.completed (t : ArrayType) (cs : List Cell) : Except ArrowFault (List Cell) :=
  if cs.all t.complete then .ok cs else .error .invalidArgument

structure Chunk where
  type : ArrayType
  cells : List Cell
  fit : ∀ c ∈ cells, type.admits c = true

namespace Chunk

def size (c : Chunk) : Nat := c.cells.length

/-- Arrays of the null type do not mark their slots as missing. -/
def marksMissing (c : Chunk) : Bool := c.type ≠ .leaf .null

def isMissing (c : Chunk) (row : Nat) : Bool :=
  c.marksMissing && (c.cells[row]?.map Cell.isMissing).getD false

def missingCount (c : Chunk) : Nat :=
  if c.marksMissing then c.cells.countP Cell.isMissing else 0

def ofCells (t : ArrayType) (cs : List Cell) : Except ArrowFault Chunk :=
  if h : ∀ c ∈ cs, t.admits c = true then
    if cs.all t.complete then .ok ⟨t, cs, h⟩ else .error .invalidArgument
  else .error .invalidArgument

def slice (c : Chunk) (start size : Nat) : Chunk where
  type := c.type
  cells := (c.cells.drop start).take size
  fit := fun x h => c.fit x (List.mem_of_mem_drop (List.mem_of_mem_take h))

end Chunk
end LogicalTable
