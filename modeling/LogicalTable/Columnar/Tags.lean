import LogicalTable.Columnar.ArrayType
import LogicalTable.DataType.Basic

/-! How fields carry logical types. A tag in the metadata of a field names the logical type of what
the field stores. The dictionary layout is a struct of a key and a value. -/
namespace LogicalTable

inductive Tag where
  | none
  | logical (id : String)
  | dictionary (id : String)
  deriving DecidableEq, Repr

namespace Tag

def nameKey : String := "ARROW:extension:name"

def idKey : String := "ARROW:extension:metadata"

def logicalName : String := "knime.logical_type"

def dictionaryName : String := "knime.struct_dict_encoded_logical_type"

def metadata : Tag → Metadata
  | none => .empty
  | logical id => (Metadata.empty.insert nameKey logicalName).insert idKey id
  | dictionary id => (Metadata.empty.insert nameKey dictionaryName).insert idKey id

/-- The tag in some metadata. Names of other extensions, and names without identifier, are none. -/
def ofMetadata (m : Metadata) : Tag :=
  match m.get? nameKey, m.get? idKey with
  | some name, some id =>
    if name = dictionaryName then dictionary id else if name = logicalName then logical id else none
  | _, _ => none

theorem ofMetadata_metadata (t : Tag) : ofMetadata t.metadata = t := by
  cases t <;> simp [ofMetadata, metadata, Metadata.get?_insert, Metadata.get?_empty, nameKey, idKey,
    logicalName, dictionaryName]

end Tag

def Field.isDictionary (f : Field) : Bool := f.metadata.get? Tag.nameKey == some Tag.dictionaryName

namespace DictKey

def leafType : DictKey → LeafType
  | byte => .uint8
  | int => .uint32
  | long => .uint64

def ofLeafType? : LeafType → Option DictKey
  | .uint8 => some byte
  | .uint32 => some int
  | .uint64 => some long
  | _ => none

theorem ofLeafType?_leafType (k : DictKey) : ofLeafType? k.leafType = some k := by
  cases k <;> rfl

end DictKey

namespace ArrayType

def dictionary (key : DictKey) (value : ArrayType) : ArrayType :=
  .struct [.plain "0" (.leaf key.leafType), .plain "1" value]

def dictionaryParts (t : ArrayType) : Except FieldError (DictKey × Field) :=
  match t with
  | .struct [key, value] =>
    match key.type with
    | .leaf k =>
      match DictKey.ofLeafType? k with
      | some k => .ok (k, value)
      | none => .error (.keyType k.name)
    | t => .error (.keyType t.text)
  | .struct fs => .error (.childCount fs.length)
  | t => .error (.notStruct t.text)

theorem dictionaryParts_dictionary (key : DictKey) (value : ArrayType) :
    (dictionary key value).dictionaryParts = .ok (key, .plain "1" value) := by
  simp [dictionary, dictionaryParts, Field.type, Field.plain, DictKey.ofLeafType?_leafType]

end ArrayType
end LogicalTable
