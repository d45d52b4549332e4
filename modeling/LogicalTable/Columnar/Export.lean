import LogicalTable.Columnar.Tags
import LogicalTable.Exchange.Export

/-! Schemas as fields. Every type maps to the array type of its storage, and the field above it is
tagged with its logical type. -/
namespace LogicalTable

def Primitive.leafType : Primitive → LeafType
  | int32 => .int32
  | int64 => .int64
  | double => .float64
  | string => .utf8
  | bool => .boolean
  | blob => .largeBinary

def DataType.tag : DataType → Tag
  | plain _ => .none
  | logical id _ _ => .logical id

mutual

def Shape.arrayType : Shape → ArrayType
  | .primitive p => .leaf p.leafType
  | .list item => .largeList (.mk "item" item.arrayType true item.tag.metadata)
  | .struct members => .struct (members.fields 0)

def DataType.arrayType : DataType → ArrayType
  | .plain s => s.arrayType
  | .logical _ s _ => s.arrayType

def Members.fields (index : Nat) : Members → List Field
  | .one t => [.mk (Nat.repr index) t.arrayType true t.tag.metadata]
  | .cons t ts => .mk (Nat.repr index) t.arrayType true t.tag.metadata :: ts.fields (index + 1)

end

/-- The tag of a column: a plain first column is the row key. -/
def DataType.columnTag (t : DataType) (index : Nat) (key : Option DictKey) : Tag :=
  match t.id?, key with
  | some id, some _ => .dictionary id
  | some id, none => .logical id
  | none, _ => if index = 0 then .logical Exchange.rowKeyId else .none

/-- The array type of a column: a dictionary for logical types with a key width. -/
def DataType.columnArrayType (t : DataType) (key : Option DictKey) : ArrayType :=
  match key with
  | some key => .dictionary key t.arrayType
  | none => t.arrayType

def columnMetadataKey : String := "kntable:column_metadata"

def Column.field (c : Column) (index : Nat) (r : Registry) : Field :=
  let key := c.type.dictKeyIn? r
  let tag := (c.type.columnTag index key).metadata
  .mk c.name (c.type.columnArrayType key) true
    (match c.metadata with
      | some text => tag.insert columnMetadataKey text
      | none => tag)

mutual

/-- The version of a field's factory, always the first, with those of its members. -/
def ArrayType.version : ArrayType → String
  | .leaf _ => "0"
  | .list f | .largeList f => "0[" ++ f.version ++ ";]"
  | .struct fs => "0[" ++ Field.memberVersions fs ++ "]"

def Field.version : Field → String
  | .mk _ t _ _ => t.version

def Field.memberVersions : List Field → String
  | [] => ""
  | f :: fs => f.version ++ ";" ++ Field.memberVersions fs

end

def factoryVersions (fs : List Field) : String := ",".intercalate (fs.map Field.version)

def chunkSizeKey : String := "KNIME:basic:chunkSize"

def factoryVersionsKey : String := "KNIME:basic:factoryVersions"

def Column.fields (r : Registry) : (index : Nat) → List Column → List Field
  | _, [] => []
  | index, c :: cs => c.field index r :: Column.fields r (index + 1) cs

def Schema.arraySchema (s : Schema) (r : Registry) (chunkSize : Nat) : ArraySchema :=
  let fields := Column.fields r 0 s.columns
  ⟨fields, (Metadata.empty.insert chunkSizeKey (Nat.repr chunkSize)).insert factoryVersionsKey
    (factoryVersions fields)⟩

end LogicalTable
