import LogicalTable.Table.Sentinel

/-! Batches: columns of one size that have the types of some fields. -/
namespace LogicalTable

/-- Whether a column of some rows has the type of the field, and all slots that must be there. -/
def Field.storedBy (f : Field) (rows : Nat) (c : Chunk) : Bool :=
  c.type = f.type && c.size = rows && (f.nullable || c.missingCount = 0)

def Field.allStoredBy : List Field → (rows : Nat) → List Chunk → Bool
  | [], _, [] => true
  | f :: fs, rows, c :: cs => f.storedBy rows c && Field.allStoredBy fs rows cs
  | _, _, _ => false

structure Batch where
  fields : List Field
  first : Chunk
  rest : List Chunk
  stored : Field.allStoredBy fields first.size (first :: rest) = true

namespace Batch

def columns (b : Batch) : List Chunk := b.first :: b.rest

def size (b : Batch) : Nat := b.first.size

def width (b : Batch) : Nat := b.columns.length

/-- The batch of some columns. There has to be a column, as the rows are counted by it. -/
def ofColumns (fields : List Field) : List Chunk → Except ArrowFault Batch
  | [] => .error .invalidArgument
  | first :: rest =>
    if h : Field.allStoredBy fields first.size (first :: rest) = true then
      .ok ⟨fields, first, rest, h⟩
    else .error .invalidArgument

/-- The batch of the same fields with other columns, all of which are made before they are put
together. -/
def mapColumns (f : Chunk → Except LayoutError Chunk) (b : Batch) : Except Error Batch := do
  let cs ← orFail .layout (b.columns.mapM f)
  orFail .arrow (ofColumns b.fields cs)

def insertSentinel (s : Sentinel) : Batch → Except Error Batch := mapColumns (Chunk.insertSentinel s)

def removeSentinel (s : Sentinel) : Batch → Except Error Batch := mapColumns (Chunk.removeSentinel s)

end Batch
end LogicalTable
