import LogicalTable.Columnar.Export
import LogicalTable.Exchange.Import

/-! Schemas from fields of any writer. Registered identifiers get their converter; others are kept
without one, so that files of unknown extensions can still be looked into. -/
namespace LogicalTable

def ArraySchema.chunkSize? (a : ArraySchema) : Option Nat :=
  (a.metadata.get? chunkSizeKey).bind Text.size?

def LeafType.primitive? : LeafType → Option Primitive
  | int32 => some .int32
  | int64 => some .int64
  | float64 => some .double
  | utf8 | largeUtf8 => some .string
  | boolean => some .bool
  | binary | largeBinary => some .blob
  | _ => none

theorem Primitive.primitive?_leafType (p : Primitive) : p.leafType.primitive? = some p := by
  cases p <;> rfl

namespace Columnar

/-- The type of a storage under an identifier. Tags of host wrappers and lists are left out; the
tag of row keys is kept, as only the first column drops it. -/
def applyLogical (r : Registry) (storage : DataType) (id : String) : Except FieldError DataType :=
  if id = Exchange.rowKeyId then orFail .construction (DataType.logical? id storage)
  else if id = Exchange.listId || Exchange.isHostWrapperOf id storage then .ok storage
  else
    match r.find? id with
    | some c =>
      if c.storage.samePhysical storage.shape then .ok c.logicalType
      else .error (.storageMismatch id c.storage.text storage.text)
    | none => orFail .construction (DataType.logical? id storage)

mutual

def importType (r : Registry) : ArrayType → Except FieldError DataType
  | .leaf t =>
    match t.primitive? with
    | some p => .ok (.ofPrimitive p)
    | none => .error (.noStorageType t.name)
  | .list f | .largeList f => do
    let item ← importField r f
    return .list item
  | .struct fs => do
    let ts ← importFields r fs
    orFail .construction (DataType.struct? ts)

def importField (r : Registry) : Field → Except FieldError DataType
  | .mk _ t _ m =>
    match Tag.ofMetadata m with
    | .none => importType r t
    | .logical id => do
      let storage ← importType r t
      applyLogical r storage id
    | .dictionary id => do
      let storage ← importDictionary r t
      applyLogical r storage id

def importDictionary (r : Registry) : ArrayType → Except FieldError DataType
  | .struct [key, value] => do
    let _ ← (ArrayType.struct [key, value]).dictionaryParts
    importField r value
  | t => do
    let _ ← t.dictionaryParts
    throw (.notStruct t.text)

def importFields (r : Registry) : List Field → Except FieldError (List DataType)
  | [] => .ok []
  | f :: fs => do
    let t ← importField r f
    let ts ← importFields r fs
    return t :: ts

end

def stripRowKey : DataType → DataType
  | .logical id s c => if id = Exchange.rowKeyId then .plain s else .logical id s c
  | t => t

def importColumn (r : Registry) (index : Nat) (f : Field) : Except FieldError Column := do
  let t ← orFail (.field index f.name) (importField r f)
  let t := if index = 0 then stripRowKey t else t
  orFail .construction (Column.make? t f.name (f.metadata.get? columnMetadataKey))

def importColumns (r : Registry) : (index : Nat) → List Field → Except FieldError (List Column)
  | _, [] => .ok []
  | index, f :: fs => do
    let c ← importColumn r index f
    let cs ← importColumns r (index + 1) fs
    return c :: cs

end Columnar

def ArraySchema.schema (a : ArraySchema) (r : Registry) : Except FieldError Schema :=
  (Columnar.importColumns r 0 a.fields).map Schema.mk

end LogicalTable
