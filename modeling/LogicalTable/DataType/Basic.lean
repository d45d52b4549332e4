import LogicalTable.Error
import LogicalTable.Value.Rich

/-! The types of columns. A shape is physical: a primitive, a list, or a struct of one or more
members. A type is a shape, or a logical identifier over one, with or without a converter. That
structs are never empty and logical types never directly nested is part of the definition. -/
namespace LogicalTable

inductive Primitive where
  | int32
  | int64
  | double
  | string
  | bool
  | blob
  deriving DecidableEq, Repr

namespace Primitive

def all : List Primitive := [int32, int64, double, string, bool, blob]

def name : Primitive → String
  | int32 => "int32"
  | int64 => "int64"
  | double => "double"
  | string => "string"
  | bool => "bool"
  | blob => "blob"

def ofName? (name : String) : Option Primitive := all.find? (·.name = name)

def tag : Primitive → String
  | bool => "boolean"
  | blob => "variable_width_binary"
  | p => p.name

/-- Documents also name the integers as the host does. -/
def ofTag? (tag : String) : Option Primitive :=
  if tag = "int32" ∨ tag = "int" then some int32
  else if tag = "int64" ∨ tag = "long" then some int64
  else if tag = "double" then some double
  else if tag = "string" then some string
  else if tag = "boolean" then some bool
  else if tag = "variable_width_binary" then some blob
  else none

def size? : Primitive → Option Nat
  | int32 => some 4
  | int64 | double => some 8
  | bool => some 1
  | string | blob => none

theorem ofTag?_tag (p : Primitive) : ofTag? p.tag = some p := by
  cases p <;> decide

end Primitive

inductive DictKey where
  | byte
  | int
  | long
  deriving DecidableEq, Repr

namespace DictKey

def name : DictKey → String
  | byte => "BYTE_KEY"
  | int => "INT_KEY"
  | long => "LONG_KEY"

def ofName? (name : String) : Option DictKey :=
  if name = "BYTE_KEY" then some byte
  else if name = "INT_KEY" then some int
  else if name = "LONG_KEY" then some long
  else none

def maxKey : DictKey → Nat
  | byte => 0xff
  | int => 0xffffffff
  | long => 0xffffffffffffffff

theorem maxKey_lt (k : DictKey) : k.maxKey < 0x10000000000000000 := by
  cases k <;> decide

theorem ofName?_name (k : DictKey) : ofName? k.name = some k := by
  cases k <;> decide

end DictKey

structure ValueFactory where
  valueType : ValueType
  encode : Value → Except ConversionError StorageValue
  decode : StorageValue → Except ConversionError Value

mutual

inductive Shape where
  | primitive (p : Primitive)
  | list (item : DataType)
  | struct (members : Members)

inductive DataType where
  | plain (shape : Shape)
  | logical (id : String) (storage : Shape) (converter : Option Converter)

inductive Members where
  | one (t : DataType)
  | cons (t : DataType) (ts : Members)

inductive Converter where
  | mk (id : String) (storage : Shape) (dictKey : Option DictKey) (factory : ValueFactory)

end

namespace Members

def toList : Members → List DataType
  | one t => [t]
  | cons t ts => t :: ts.toList

def ofList : DataType → List DataType → Members
  | t, [] => one t
  | t, u :: us => cons t (ofList u us)

theorem toList_ne_nil (ms : Members) : ms.toList ≠ [] := by
  cases ms <;> simp [toList]

theorem ofList_of_toList : ∀ {ms : Members} {t : DataType} {ts : List DataType},
    ms.toList = t :: ts → ofList t ts = ms
  | one _, _, _, h => by
    cases h
    rfl
  | cons u us, _, _, h => by
    cases h
    cases hu : us.toList with
    | nil => exact (us.toList_ne_nil hu).elim
    | cons v vs => rw [ofList, ofList_of_toList hu]

end Members

namespace Shape

def int32 : Shape := primitive .int32

def int64 : Shape := primitive .int64

def string : Shape := primitive .string

def blob : Shape := primitive .blob

def record (p : Primitive) (ps : List Primitive) : Shape :=
  struct (.ofList (.plain (primitive p)) (ps.map fun q => .plain (primitive q)))

end Shape

namespace DataType

def ofPrimitive (p : Primitive) : DataType := plain (.primitive p)

def list (item : DataType) : DataType := plain (.list item)

def struct? : List DataType → Except ConstructionError DataType
  | [] => .error .emptyStruct
  | t :: ts => .ok (plain (.struct (.ofList t ts)))

theorem struct?_toList (ms : Members) : struct? ms.toList = .ok (plain (.struct ms)) := by
  cases h : ms.toList with
  | nil => exact (ms.toList_ne_nil h).elim
  | cons t ts => rw [struct?, Members.ofList_of_toList h]

/-- The shape of the type, or that of its storage. -/
def shape : DataType → Shape
  | plain s => s
  | logical _ s _ => s

def id? : DataType → Option String
  | plain _ => none
  | logical id _ _ => some id

def converter? : DataType → Option Converter
  | plain _ => none
  | logical _ _ c => c

def primitive? : DataType → Option Primitive
  | plain (.primitive p) => some p
  | _ => none

def item? : DataType → Option DataType
  | plain (.list t) => some t
  | _ => none

def members? : DataType → Option (List DataType)
  | plain (.struct ms) => some ms.toList
  | _ => none

def isLogical : DataType → Bool
  | plain _ => false
  | logical _ _ _ => true

end DataType

mutual

def Shape.text : Shape → String
  | .primitive p => p.name
  | .list item => "list<" ++ item.text ++ ">"
  | .struct members => "struct<" ++ members.text ++ ">"

def DataType.text : DataType → String
  | .plain s => s.text
  | .logical id s _ => "extension<logical=" ++ id ++ ", storage=" ++ s.text ++ ">"

def Members.text : Members → String
  | .one t => t.text
  | .cons t ts => t.text ++ ", " ++ ts.text

end

mutual

/-- Levels of nesting; a primitive has one. -/
def Shape.depth : Shape → Nat
  | .primitive _ => 1
  | .list item => 1 + item.depth
  | .struct members => 1 + members.depth

def DataType.depth : DataType → Nat
  | .plain s => s.depth
  | .logical _ s _ => 1 + s.depth

def Members.depth : Members → Nat
  | .one t => t.depth
  | .cons t ts => max t.depth ts.depth

end

mutual

def Shape.containsLogical : Shape → Bool
  | .primitive _ => false
  | .list item => item.containsLogical
  | .struct members => members.containsLogical

def DataType.containsLogical : DataType → Bool
  | .plain s => s.containsLogical
  | .logical _ _ _ => true

def Members.containsLogical : Members → Bool
  | .one t => t.containsLogical
  | .cons t ts => t.containsLogical || ts.containsLogical

end

mutual

def Shape.physical : Shape → Shape
  | .primitive p => .primitive p
  | .list item => .list item.physical
  | .struct members => .struct members.physical

/-- The type with every logical type replaced by its storage. -/
def DataType.physical : DataType → DataType
  | .plain s => .plain s.physical
  | .logical _ s _ => .plain s.physical

def Members.physical : Members → Members
  | .one t => .one t.physical
  | .cons t ts => .cons t.physical ts.physical

end

mutual

def Shape.bare : Shape → Shape
  | .primitive p => .primitive p
  | .list item => .list item.bare
  | .struct members => .struct members.bare

def DataType.bare : DataType → DataType
  | .plain s => .plain s.bare
  | .logical id s _ => .logical id s.bare none

def Members.bare : Members → Members
  | .one t => .one t.bare
  | .cons t ts => .cons t.bare ts.bare

end

mutual

def Shape.same : Shape → Shape → Bool
  | .primitive p, .primitive q => p == q
  | .list t, .list u => t.same u
  | .struct ts, .struct us => ts.same us
  | _, _ => false

/-- Equality of types: the converters that they carry do not count. -/
def DataType.same : DataType → DataType → Bool
  | .plain s, .plain t => s.same t
  | .logical i s _, .logical j t _ => i == j && s.same t
  | _, _ => false

def Members.same : Members → Members → Bool
  | .one t, .one u => t.same u
  | .cons t ts, .cons u us => t.same u && ts.same us
  | _, _ => false

end

mutual

theorem Shape.same_iff : ∀ s t : Shape, s.same t = true ↔ s.bare = t.bare
  | .primitive _, t => by cases t <;> simp [Shape.same, Shape.bare]
  | .list a, t => by cases t <;> simp [Shape.same, Shape.bare, DataType.same_iff a]
  | .struct as, t => by cases t <;> simp [Shape.same, Shape.bare, Members.same_iff as]

theorem DataType.same_iff : ∀ t u : DataType, t.same u = true ↔ t.bare = u.bare
  | .plain s, u => by cases u <;> simp [DataType.same, DataType.bare, Shape.same_iff s]
  | .logical _ s _, u => by cases u <;> simp [DataType.same, DataType.bare, Shape.same_iff s]

theorem Members.same_iff : ∀ ts us : Members, ts.same us = true ↔ ts.bare = us.bare
  | .one t, us => by cases us <;> simp [Members.same, Members.bare, DataType.same_iff t]
  | .cons t ts, us => by
    cases us <;> simp [Members.same, Members.bare, DataType.same_iff t, Members.same_iff ts]

end

instance : BEq DataType := ⟨DataType.same⟩

theorem DataType.beq_iff {t u : DataType} : (t == u) = true ↔ t.bare = u.bare := same_iff t u

def Shape.samePhysical (s t : Shape) : Bool := s.physical.same t.physical

/-- A logical type over a type that is not logical itself. -/
def DataType.logical? (id : String) (t : DataType) : Except ConstructionError DataType :=
  match t with
  | .plain s => .ok (.logical id s none)
  | t => .error (.logicalInLogical id t.text)

mutual

def Shape.admits : Shape → StorageValue → Bool
  | _, .null => true
  | .primitive p, v =>
    match p, v with
    | .int32, .int _ | .int64, .long _ | .double, .double _ | .string, .string _
    | .bool, .bool _ | .blob, .blob _ => true
    | _, _ => false
  | .list item, .list vs => vs.all fun v => item.admits v
  | .struct members, .struct vs => members.admits vs
  | _, _ => false

/-- Whether a column of the type can store the value. Missing values fit everywhere, logical types
take what their storage takes. -/
def DataType.admits : DataType → StorageValue → Bool
  | .plain s, v => s.admits v
  | .logical _ s _, v => s.admits v

def Members.admits : Members → List StorageValue → Bool
  | .one t, [v] => t.admits v
  | .cons t ts, v :: vs => t.admits v && ts.admits vs
  | _, _ => false

end

theorem Shape.admits_null (s : Shape) : s.admits .null = true := by
  cases s <;> rfl

theorem DataType.admits_null : ∀ t : DataType, t.admits .null = true
  | .plain s => s.admits_null
  | .logical _ s _ => s.admits_null

end LogicalTable
