import LogicalTable.Columnar.Cell
import LogicalTable.Value.Storage

/-! Storage values in the slots of arrays, row by row. -/
namespace LogicalTable

/-- The value of a slot of a leaf type. Types without a counterpart fail, unless the slot is marked
as missing. -/
def LeafType.read (t : LeafType) (c : Cell) : Except LayoutError StorageValue :=
  match t, c with
  | .null, _ => .error (.noStorageValue t.name)
  | _, .missing => .ok .null
  | .boolean, .bool b => .ok (.bool b)
  | .int32, .integer n => .ok (.int (Int32.ofInt n))
  | .int64, .integer n => .ok (.long (Int64.ofInt n))
  | .float64, .float x => .ok (.double x)
  | .utf8, .text s | .largeUtf8, .text s => .ok (.string s)
  | .binary, .bytes bs | .largeBinary, .bytes bs => .ok (.blob bs)
  | _, _ => .error (.noStorageValue t.name)

mutual

def ArrayType.read : ArrayType → Cell → Except LayoutError StorageValue
  | .leaf t, c => t.read c
  | .list f, c | .largeList f, c =>
    match c with
    | .list cs => do
      let vs ← cs.mapM fun c => f.read c
      return .list vs
    | _ => .ok .null
  | .struct fs, c =>
    match c with
    | .struct true cs => do
      let vs ← Field.readAll fs cs
      return .struct vs
    | _ => .ok .null

def Field.read : Field → Cell → Except LayoutError StorageValue
  | .mk _ t _ _, c => t.read c

def Field.readAll : List Field → List Cell → Except LayoutError (List StorageValue)
  | f :: fs, c :: cs => do
    let v ← f.read c
    let vs ← Field.readAll fs cs
    return v :: vs
  | _, _ => .ok []

end

namespace Chunk

def read (c : Chunk) (row : Nat) : Except LayoutError StorageValue :=
  match c.cells[row]? with
  | some cell => c.type.read cell
  | none => .error (.arrayRange row c.size)

def values (c : Chunk) : Except LayoutError (List StorageValue) := c.cells.mapM c.type.read

end Chunk

def LeafType.store (t : LeafType) (v : StorageValue) : Cell :=
  match t, v with
  | .boolean, .bool b => .bool b
  | .int32, .int n => .integer n.toInt
  | .int64, .long n => .integer n.toInt
  | .float64, .double x => .float x
  | .utf8, .string s | .largeUtf8, .string s => .text s
  | .binary, .blob bs | .largeBinary, .blob bs => .bytes bs
  | _, _ => .missing

mutual

/-- The slot that stores a value. A missing struct holds missing members. -/
def ArrayType.store : ArrayType → StorageValue → Cell
  | .leaf t, v => t.store v
  | .list f, v | .largeList f, v =>
    match v with
    | .list vs => .list (vs.map fun v => f.store v)
    | _ => .missing
  | .struct fs, v =>
    match v with
    | .struct vs => .struct true (Field.storeAll fs vs)
    | _ => .struct false (Field.storeAll fs [])

def Field.store : Field → StorageValue → Cell
  | .mk _ t _ _, v => t.store v

def Field.storeAll : List Field → List StorageValue → List Cell
  | [], _ => []
  | f :: fs, vs => f.store (vs.headD .null) :: Field.storeAll fs vs.tail

end

theorem LeafType.admits_store (t : LeafType) (v : StorageValue) : t.admits (t.store v) = true := by
  have i (n : Int32) : -0x80000000 ≤ n.toInt ∧ n.toInt < 0x80000000 := ⟨n.le_toInt, n.toInt_lt⟩
  have l (n : Int64) : -0x8000000000000000 ≤ n.toInt ∧ n.toInt < 0x8000000000000000 :=
    ⟨n.le_toInt, n.toInt_lt⟩
  cases t <;> cases v <;> simp_all [store, admits, bounds?]

mutual

theorem ArrayType.admits_store : ∀ (t : ArrayType) (v : StorageValue), t.admits (t.store v) = true
  | .leaf t, v => t.admits_store v
  | .list f, v => by cases v <;> simp [ArrayType.store, ArrayType.admits, Field.admits_store f]
  | .largeList f, v => by cases v <;> simp [ArrayType.store, ArrayType.admits, Field.admits_store f]
  | .struct fs, v => by
    cases v <;> simp [ArrayType.store, ArrayType.admits, Field.admitAll_storeAll fs]

theorem Field.admits_store : ∀ (f : Field) (v : StorageValue), f.admits (f.store v) = true
  | .mk _ t _ _, v => t.admits_store v

theorem Field.admitAll_storeAll : ∀ (fs : List Field) (vs : List StorageValue),
    Field.admitAll fs (Field.storeAll fs vs) = true
  | [], _ => rfl
  | f :: fs, vs => by
    simp [Field.storeAll, Field.admitAll, Field.admits_store f, Field.admitAll_storeAll fs]

end

end LogicalTable
