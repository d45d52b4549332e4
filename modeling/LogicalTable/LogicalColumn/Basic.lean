import LogicalTable.Columnar.Export
import LogicalTable.DataType.Converter
import LogicalTable.Dictionary.Basic

/-! Columns of rich values over chunks of storage, plain or dictionaries. Values are decoded when
they are asked for. -/
namespace LogicalTable

inductive ColumnChunk where
  | plain (c : Chunk)
  | dictionary (d : Dictionary)

namespace ColumnChunk

def chunk : ColumnChunk → Chunk
  | plain c => c
  | dictionary d => d.chunk

def size (c : ColumnChunk) : Nat := c.chunk.size

def isMissing (row : Nat) : ColumnChunk → Bool
  | plain c => c.isMissing row
  | dictionary d => d.isMissing row

def read (row : Nat) : ColumnChunk → Except LayoutError StorageValue
  | plain c => c.read row
  | dictionary d => d.read row

end ColumnChunk

structure LogicalType where
  id : String
  storage : Shape
  converter : Converter

namespace LogicalType

def of (t : DataType) (asked : ValueType) : Except Error LogicalType :=
  match t with
  | .plain _ => .error (.layout (.notLogical t.text))
  | .logical id _ none => .error (.registry (.noColumnConverter id))
  | .logical id storage (some c) =>
    if c.valueType = asked then .ok ⟨id, storage, c⟩
    else .error (.layout (.wrongColumnType c.valueType.name asked.name))

def dataType (t : LogicalType) : DataType := .logical t.id t.storage (some t.converter)

def decode? (t : LogicalType) (s : StorageValue) : Except Error (Option Value) :=
  if s.isNull then .ok none
  else (orFail .conversion (t.converter.decode t.converter.valueType s)).map some

end LogicalType

def ArrayType.isDictionaryOver (plain t : ArrayType) : Bool :=
  match t.dictionaryParts with
  | .ok (_, value) => value.type.sameLayout plain
  | .error _ => false

/-- Numbers the rows of further chunks: behind the last start, each chunk adds the row where it ends. -/
def numberRows (starts : List Nat) (cs : List ColumnChunk) : List Nat :=
  cs.foldl (fun starts c => starts ++ [starts.getLastD 0 + c.size]) starts

theorem length_numberRows (starts : List Nat) (cs : List ColumnChunk) :
    (numberRows starts cs).length = starts.length + cs.length := by
  induction cs generalizing starts with
  | nil => rfl
  | cons c cs ih =>
    have rest := ih (starts ++ [starts.getLastD 0 + c.size])
    rw [List.length_append, List.length_singleton] at rest
    rw [List.length_cons, Nat.add_comm cs.length, ← Nat.add_assoc]
    exact rest

theorem numberRows_append (starts : List Nat) (cs ds : List ColumnChunk) :
    numberRows starts (cs ++ ds) = numberRows (numberRows starts cs) ds :=
  List.foldl_append

/-- The rows of all chunks are numbered through. The starts of the chunks are kept, and behind them the
number of rows. -/
structure LogicalColumn where
  type : LogicalType
  chunks : List ColumnChunk
  starts : List Nat
  numbered : starts = numberRows [0] chunks

namespace LogicalColumn

def ofViews (t : LogicalType) (cs : List ColumnChunk) : LogicalColumn := ⟨t, cs, numberRows [0] cs, rfl⟩

def chunkAt (t : LogicalType) (index : Nat) (c : Chunk) : Except Error ColumnChunk :=
  let plain := t.storage.arrayType
  if c.type.sameLayout plain then .ok (.plain c)
  else if plain.isDictionaryOver c.type then (Dictionary.ofChunk c).map .dictionary
  else .error (.layout (.chunkType index t.id c.type.text plain.text))

def chunksFrom (t : LogicalType) : (index : Nat) → List Chunk → Except Error (List ColumnChunk)
  | _, [] => .ok []
  | index, c :: cs => do
    let p ← chunkAt t index c
    let ps ← chunksFrom t (index + 1) cs
    return p :: ps

def ofChunks (t : DataType) (asked : ValueType) (cs : List Chunk) : Except Error LogicalColumn := do
  let t ← LogicalType.of t asked
  return ofViews t (← chunksFrom t 0 cs)

def size (c : LogicalColumn) : Nat := c.starts.getLastD 0

def isEmpty (c : LogicalColumn) : Bool := c.size == 0

/-- The place of the first chunk that starts behind an index, or behind all chunks. -/
def partitionPoint (c : LogicalColumn) (index : Nat) : Nat :=
  (c.starts.take c.chunks.length).findIdx (index < ·)

theorem length_starts (c : LogicalColumn) : c.starts.length = c.chunks.length + 1 := by
  rw [c.numbered, length_numberRows, List.length_singleton, Nat.add_comm]

theorem chunks_ne_nil {c : LogicalColumn} {index : Nat} (inside : index < c.size) : c.chunks ≠ [] := by
  intro empty
  rw [size, c.numbered, empty] at inside
  exact Nat.not_lt_zero index inside

theorem partitionPoint_le (c : LogicalColumn) (index : Nat) :
    c.partitionPoint index ≤ c.chunks.length :=
  Nat.le_trans List.findIdx_le_length (List.length_take_le ..)

theorem place_lt {c : LogicalColumn} {index : Nat} (inside : index < c.size) :
    c.partitionPoint index - 1 < c.chunks.length := by
  have upTo := c.partitionPoint_le index
  have there := List.length_pos_iff.2 (chunks_ne_nil inside)
  omega

/-- The chunk of a row of the column, the last one that starts up to it, and the row within the chunk. -/
def locate (c : LogicalColumn) (index : Nat) : Except LayoutError (ColumnChunk × Nat) :=
  if inside : index < c.size then
    have here := place_lt inside
    have started : c.partitionPoint index - 1 < c.starts.length :=
      c.length_starts ▸ Nat.lt_succ_of_lt here
    .ok (c.chunks[c.partitionPoint index - 1], index - c.starts[c.partitionPoint index - 1])
  else .error (.columnRange index c.size)

def isMissing (c : LogicalColumn) (index : Nat) : Except LayoutError Bool :=
  (c.locate index).map fun (chunk, row) => chunk.isMissing row

def read (c : LogicalColumn) (index : Nat) : Except LayoutError StorageValue := do
  let (chunk, row) ← c.locate index
  chunk.read row

def get (c : LogicalColumn) (index : Nat) : Except Error (Option Value) := do
  let s ← orFail .layout (c.read index)
  c.type.decode? s

def values (c : LogicalColumn) : List (Except Error (Option Value)) := (List.range c.size).map c.get

def decodeChunk (t : LogicalType) (c : ColumnChunk) : Except Error (List (Option Value)) :=
  (List.range c.size).mapM fun row => do
    let s ← orFail .layout (c.read row)
    t.decode? s

def decodeAll (c : LogicalColumn) : Except Error (List (Option Value)) :=
  (c.chunks.mapM (decodeChunk c.type)).map List.flatten

/-- The chunks of two columns of one type in a row; those of the second are numbered on. -/
def append (c d : LogicalColumn) : Except LayoutError LogicalColumn :=
  if c.type.dataType.same d.type.dataType then
    .ok ⟨c.type, c.chunks ++ d.chunks, numberRows c.starts d.chunks, by
      rw [c.numbered, numberRows_append]⟩
  else .error (.unequalColumns c.type.id d.type.id)

end LogicalColumn
end LogicalTable
