import LogicalTable.Columnar.Import
import LogicalTable.LogicalColumn.Basic
import LogicalTable.Table.Batch

/-! Tables: batches with a logical schema. The first column holds the row keys. -/
namespace LogicalTable

structure TableOptions where
  chunkSize : Nat := 65536
  /-- What stands for missing integers; without it they are marked as missing. -/
  sentinel : Option Sentinel := none

structure Table where
  schema : Schema
  arraySchema : ArraySchema
  batches : List Batch

namespace Table

def batchAt (fields : List Field) (columns : List (List Chunk)) (sentinel : Option Sentinel)
    (place : Nat) : Except Error Batch := do
  let b ← orFail .arrow (Batch.ofColumns fields (columns.filterMap (·[place]?)))
  match sentinel with
  | some s => b.insertSentinel s
  | none => return b

/-- The table of columns of chunks. All columns are cut alike. -/
def ofColumns (schema : Schema) (columns : List (List Chunk)) (r : Registry)
    (options : TableOptions) : Except Error Table := do
  if columns.length ≠ schema.size then
    throw (.layout (.columnCount schema.size columns.length))
  let count := (columns.head?.map List.length).getD 0
  match columns.zipIdx.find? fun (cs, _) => cs.length ≠ count with
  | some (cs, i) => throw (.layout (.chunkCount i cs.length count))
  | none =>
    let arraySchema := schema.arraySchema r options.chunkSize
    let batches ←
      (List.range count).mapM (batchAt arraySchema.fields columns options.sentinel)
    return ⟨schema, arraySchema, batches⟩

def takeBatch (width : Nat) (sentinel : Option Sentinel) (b : Batch) : Except Error Batch := do
  if b.width ≠ width then throw (.field (.batchColumns b.width width))
  match sentinel with
  | some s => b.removeSentinel s
  | none => return b

/-- The table of batches of any writer, with the schema that its fields describe. -/
def ofBatches (arraySchema : ArraySchema) (batches : List Batch) (r : Registry)
    (options : TableOptions) : Except Error Table := do
  let schema ← orFail .ofField (arraySchema.schema r)
  let batches ← batches.mapM (takeBatch schema.size options.sentinel)
  return ⟨schema, arraySchema, batches⟩

def size (t : Table) : Nat := (t.batches.map Batch.size).foldr (· + ·) 0

def chunksAt (t : Table) (position : Nat) : List Chunk :=
  t.batches.filterMap fun b => b.columns[position]?

def columnChunks (t : Table) (key : ColumnRef) : Except LookupError (List Chunk) :=
  (t.schema.indexOf key).map t.chunksAt

def logicalColumn (t : Table) (key : ColumnRef) (asked : ValueType) : Except Error LogicalColumn := do
  let position ← orFail .lookup (t.schema.indexOf key)
  let column ← orFail .lookup (t.schema.get (.position position))
  LogicalColumn.ofChunks column.type asked (t.chunksAt position)

def isDictionary (t : Table) (position : Nat) : Bool :=
  (t.arraySchema.fields[position]?.map Field.isDictionary).getD false

def chunkValues (dictionary : Bool) (c : Chunk) : Except Error (List StorageValue) :=
  if dictionary then do
    let d ← Dictionary.ofChunk c
    orFail .layout d.values
  else orFail .layout c.values

def storageValues (t : Table) (key : ColumnRef) : Except Error (List StorageValue) := do
  let position ← orFail .lookup (t.schema.indexOf key)
  let values ← (t.chunksAt position).mapM (chunkValues (t.isDictionary position))
  return values.flatten

def rowKeys (t : Table) : Except Error (List StorageValue) :=
  if t.schema.columns.isEmpty then .error (.lookup .noRowKeys) else t.storageValues (.position 0)

end Table
end LogicalTable
