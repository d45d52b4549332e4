import LogicalTable.Dictionary.Encode
import LogicalTable.LogicalColumn.Basic

/-! Building columns value by value. A chunk is cut whenever enough values wait, and at the end. Room
for the values that wait is asked for at once. That there is memory for it is taken for granted here,
as everywhere, but not that so much memory can be asked for. -/
namespace LogicalTable

/-- Bytes of a storage value in memory: a word that tells the kind, and the three of a text or a list. -/
def StorageValue.width : Nat := 4 * 8

structure ColumnBuilder where
  type : LogicalType
  chunkSize : Nat
  pending : List StorageValue
  chunks : List Chunk
  keys : Option KeySource

namespace ColumnBuilder

/-- The most values that room can be asked for: their bytes are counted by a signed word. -/
def maxChunkSize : Nat := 0x7fffffffffffffff / StorageValue.width

def new (t : DataType) (asked : ValueType) (chunkSize : Nat) : Except Error ColumnBuilder := do
  if chunkSize = 0 then throw (.layout .zeroChunkSize)
  let t ← LogicalType.of t asked
  if maxChunkSize < chunkSize then throw .capacityOverflow
  return ⟨t, chunkSize, [], [], t.converter.dictKey.map .fresh⟩

def arrayType (b : ColumnBuilder) : ArrayType :=
  b.type.dataType.columnArrayType (b.keys.map KeySource.key)

/-- Stores the values that wait as a chunk; without success they keep waiting, but the keys that
were drawn for them stay drawn. -/
def store (b : ColumnBuilder) : Option KeySource × Except Error Chunk :=
  match b.keys with
  | some s =>
    let (s, c) := s.encode b.type.storage.arrayType b.pending
    (some s, c)
  | none => (none, Chunk.build b.type.storage.arrayType b.pending)

def cut (b : ColumnBuilder) : ColumnBuilder × Except Error Unit :=
  if b.pending.isEmpty then (b, .ok ())
  else
    match b.store with
    | (keys, .ok c) => ({ b with keys, pending := [], chunks := b.chunks ++ [c] }, .ok ())
    | (keys, .error e) => ({ b with keys }, .error e)

def push (b : ColumnBuilder) (s : StorageValue) : ColumnBuilder × Except Error Unit :=
  let b := { b with pending := b.pending ++ [s] }
  if b.pending.length = b.chunkSize then b.cut else (b, .ok ())

def append (b : ColumnBuilder) : Option Value → ColumnBuilder × Except Error Unit
  | none => b.push .null
  | some v =>
    match b.type.converter.encode v with
    | .ok s => b.push s
    | .error e => (b, .error (.conversion e))

def extend (b : ColumnBuilder) : List (Option Value) → ColumnBuilder × Except Error Unit
  | [] => (b, .ok ())
  | v :: vs =>
    match b.append v with
    | (b, .ok ()) => b.extend vs
    | (b, .error e) => (b, .error e)

def finish (b : ColumnBuilder) : Except Error (List Chunk) :=
  match b.cut with
  | (b, .ok ()) => .ok b.chunks
  | (_, .error e) => .error e

def column (b : ColumnBuilder) : Except Error LogicalColumn := do
  let cs ← b.finish
  LogicalColumn.ofChunks b.type.dataType b.type.converter.valueType cs

end ColumnBuilder
end LogicalTable
