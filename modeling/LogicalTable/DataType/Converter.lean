import LogicalTable.DataType.Basic

/-! Converters check types on both sides of their factory: the type of the value that is given or
asked for, and that an encoded value fits the registered storage. -/
namespace LogicalTable.Converter

def id : Converter → String
  | mk id _ _ _ => id

def storage : Converter → Shape
  | mk _ storage _ _ => storage

def dictKey : Converter → Option DictKey
  | mk _ _ dictKey _ => dictKey

def factory : Converter → ValueFactory
  | mk _ _ _ factory => factory

def valueType (c : Converter) : ValueType := c.factory.valueType

def logicalType (c : Converter) : DataType := .logical c.id c.storage (some c)

def encodeAny (c : Converter) (v : Value) : Except ConversionError StorageValue := do
  if v.type ≠ c.valueType then throw (.expectedValue c.valueType.name)
  let s ← c.factory.encode v
  if c.storage.admits s then return s
  else throw (.misfit c.valueType.name s.kind c.storage.text)

def decodeAny (c : Converter) (s : StorageValue) : Except ConversionError Value :=
  c.factory.decode s

def checkType (c : Converter) (asked : ValueType) : Except ConversionError Unit :=
  if c.valueType = asked then .ok ()
  else .error (.wrongValueType c.id c.valueType.name asked.name)

def encode (c : Converter) (v : Value) : Except ConversionError StorageValue := do
  c.checkType v.type
  c.encodeAny v

def decode (c : Converter) (asked : ValueType) (s : StorageValue) : Except ConversionError Value :=
  do
  c.checkType asked
  c.decodeAny s

def attachedValueType (id : String) : Option Converter → Except RegistryError ValueType
  | some c => .ok c.valueType
  | none => .error (.noConverter id)

end LogicalTable.Converter
