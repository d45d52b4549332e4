import LogicalTable.Columnar.Metadata
import LogicalTable.Text.Quoted

/-! The types of columnar arrays, after the Arrow format. Types with members name and describe them
by fields. -/
namespace LogicalTable

inductive LeafType where
  | null
  | boolean
  | int8
  | int16
  | int32
  | int64
  | uint8
  | uint16
  | uint32
  | uint64
  | float16
  | float32
  | float64
  | date32
  | date64
  | utf8
  | largeUtf8
  | utf8View
  | binary
  | largeBinary
  /-- Any type of another kind, such as timestamps, maps or unions, by its full name. -/
  | other (name : String)
  deriving DecidableEq, Repr

namespace LeafType

def all : List LeafType := [null, boolean, int8, int16, int32, int64, uint8, uint16, uint32, uint64,
  float16, float32, float64, date32, date64, utf8, largeUtf8, utf8View, binary, largeBinary]

def name : LeafType → String
  | null => "Null"
  | boolean => "Boolean"
  | int8 => "Int8"
  | int16 => "Int16"
  | int32 => "Int32"
  | int64 => "Int64"
  | uint8 => "UInt8"
  | uint16 => "UInt16"
  | uint32 => "UInt32"
  | uint64 => "UInt64"
  | float16 => "Float16"
  | float32 => "Float32"
  | float64 => "Float64"
  | date32 => "Date32"
  | date64 => "Date64"
  | utf8 => "Utf8"
  | largeUtf8 => "LargeUtf8"
  | utf8View => "Utf8View"
  | binary => "Binary"
  | largeBinary => "LargeBinary"
  | other name => name

def ofName? (name : String) : Option LeafType := all.find? (·.name = name)

def wide : LeafType → LeafType
  | utf8 => largeUtf8
  | binary => largeBinary
  | t => t

end LeafType

mutual

inductive ArrayType where
  | leaf (t : LeafType)
  | list (item : Field)
  | largeList (item : Field)
  | struct (members : List Field)

inductive Field where
  | mk (name : String) (type : ArrayType) (nullable : Bool) (metadata : Metadata)

end

namespace Field

def name : Field → String
  | mk name _ _ _ => name

def type : Field → ArrayType
  | mk _ type _ _ => type

def nullable : Field → Bool
  | mk _ _ nullable _ => nullable

def metadata : Field → Metadata
  | mk _ _ _ metadata => metadata

def plain (name : String) (type : ArrayType) : Field := mk name type true .empty

def withMetadata (m : Metadata) : Field → Field
  | mk name type nullable _ => mk name type nullable m

end Field

mutual

def ArrayType.same : ArrayType → ArrayType → Bool
  | .leaf t, .leaf u => t == u
  | .list f, .list g => f.same g
  | .largeList f, .largeList g => f.same g
  | .struct fs, .struct gs => Field.sameAll fs gs
  | _, _ => false

def Field.same : Field → Field → Bool
  | .mk n t b m, .mk n' t' b' m' => n == n' && t.same t' && b == b' && m == m'

def Field.sameAll : List Field → List Field → Bool
  | [], [] => true
  | f :: fs, g :: gs => f.same g && Field.sameAll fs gs
  | _, _ => false

end

mutual

theorem ArrayType.same_iff : ∀ t u : ArrayType, t.same u = true ↔ t = u
  | .leaf _, u => by cases u <;> simp [ArrayType.same]
  | .list f, u => by cases u <;> simp [ArrayType.same, Field.same_iff f]
  | .largeList f, u => by cases u <;> simp [ArrayType.same, Field.same_iff f]
  | .struct fs, u => by cases u <;> simp [ArrayType.same, Field.sameAll_iff fs]

theorem Field.same_iff : ∀ f g : Field, f.same g = true ↔ f = g
  | .mk _ t _ _, .mk _ _ _ _ => by simp [Field.same, ArrayType.same_iff t, and_assoc]

theorem Field.sameAll_iff : ∀ fs gs : List Field, Field.sameAll fs gs = true ↔ fs = gs
  | [], gs => by cases gs <;> simp [Field.sameAll]
  | f :: fs, gs => by cases gs <;> simp [Field.sameAll, Field.same_iff f, Field.sameAll_iff fs]

end

instance : DecidableEq ArrayType := fun t u => decidable_of_iff _ (ArrayType.same_iff t u)

instance : DecidableEq Field := fun f g => decidable_of_iff _ (Field.same_iff f g)

mutual

/-- Whether arrays of the two types hold values alike: names, nullability and metadata of members
do not count, nor does the offset width of strings, blobs and lists. -/
def ArrayType.sameLayout : ArrayType → ArrayType → Bool
  | .leaf t, .leaf u => t.wide == u.wide
  | .list f, .list g | .list f, .largeList g | .largeList f, .list g | .largeList f, .largeList g =>
    f.sameLayout g
  | .struct fs, .struct gs => Field.sameLayouts fs gs
  | _, _ => false

def Field.sameLayout : Field → Field → Bool
  | .mk _ t _ _, .mk _ u _ _ => t.sameLayout u

def Field.sameLayouts : List Field → List Field → Bool
  | [], [] => true
  | f :: fs, g :: gs => f.sameLayout g && Field.sameLayouts fs gs
  | _, _ => false

end

def Metadata.text (m : Metadata) : String :=
  "\x7b" ++ ", ".intercalate (m.entries.map fun (k, v) => Text.quoted k ++ ": " ++ Text.quoted v) ++
    "\x7d"

mutual

def ArrayType.text : ArrayType → String
  | .leaf t => t.name
  | .list f => "List(" ++ f.text ++ ")"
  | .largeList f => "LargeList(" ++ f.text ++ ")"
  | .struct fs => "Struct([" ++ ", ".intercalate (Field.texts fs) ++ "])"

def Field.text : Field → String
  | .mk name type nullable metadata =>
    "Field \x7b name: " ++ Text.quoted name ++ ", data_type: " ++ type.text ++ ", nullable: " ++
      (if nullable then "true" else "false") ++ ", dict_id: 0, dict_is_ordered: false, metadata: " ++
      metadata.text ++ " \x7d"

def Field.texts : List Field → List String
  | [] => []
  | f :: fs => f.text :: Field.texts fs

end

structure ArraySchema where
  fields : List Field
  metadata : Metadata
  deriving DecidableEq

end LogicalTable
