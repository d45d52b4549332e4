import LogicalTable.Geometry.WkbReader
import LogicalTable.Text.Numeral

/-! What can go wrong, by cause, and the wording of each cause. Types and identifiers are carried
as the text that shows them. -/
namespace LogicalTable

inductive ConstructionError where
  | emptyStruct
  | logicalInLogical (id storage : String)
  | blankName (type : String)
  | nameCount (types names : Nat)
  | metadataCount (types entries : Nat)
  deriving DecidableEq, Repr

def ConstructionError.text : ConstructionError → String
  | emptyStruct => "struct type needs at least one inner type"
  | logicalInLogical id storage =>
    s!"logical type '{id}' cannot wrap another logical type ({storage})"
  | blankName type => s!"column name must not be blank (type {type})"
  | nameCount types names => s!"got {types} types but {names} names"
  | metadataCount types entries => s!"got {types} types but {entries} metadata entries"

inductive LookupError where
  | indexRange (index : Int) (columns : Nat)
  | unknownName (name : String)
  | insertRange (position columns : Nat)
  | absentColumn (column : String)
  | noRowKeys
  deriving DecidableEq, Repr

def LookupError.text : LookupError → String
  | indexRange index columns =>
    "column index " ++ Text.decimal index ++ s!" out of range for {columns} columns"
  | unknownName name => s!"no column named '{name}'"
  | insertRange position columns => s!"insert position {position} out of range for {columns} columns"
  | absentColumn column => s!"{column} is not in the schema"
  | noRowKeys => "table has no row key column"

inductive SerializationError where
  | invalidJson
  | duplicateName (name : String)
  | lengths (specs traits names metadata : Nat)
  | column (index : Nat) (name : String) (cause : SerializationError)
  | unknownType (tag : String)
  | memberCount (specs traits : Nat)
  | shapeMismatch (spec traits : String)
  | unregistered (id : String)
  | storageMismatch (id registered declared : String)
  | construction (cause : ConstructionError)
  deriving DecidableEq, Repr

def ConstructionError.message (e : ConstructionError) : String := "Construction error: " ++ e.text

def SerializationError.text : SerializationError → String
  | invalidJson => "invalid JSON"
  | duplicateName name => s!"duplicate column name '{name}'"
  | lengths specs traits names metadata =>
    s!"mismatched lengths: {specs} specs, {traits} traits, {names} names, {metadata} metadata entries"
  | column index name cause => s!"column {index} ('{name}'): Serialization error: " ++ cause.text
  | unknownType tag => s!"unknown type '{tag}'"
  | memberCount specs traits => s!"struct spec has {specs} inner types but traits have {traits}"
  | shapeMismatch spec traits => s!"spec {spec} does not match {traits} traits"
  | unregistered id => s!"unregistered logical type {id}"
  | storageMismatch id registered declared =>
    s!"logical type {id} is registered with storage {registered} but the schema declares {declared}"
  | construction cause => cause.message

inductive RegistryError where
  | noConverter (id : String)
  | noColumnConverter (id : String)
  | invalidStorageSpec (factory : String)
  | invalidTraitsSpec (factory : String)
  | cannotRegister (factory : String) (cause : SerializationError)
  | logicalStorage (id : String)
  | conflict (id valueType storage : String)
  | noLogicalType (valueType : String)
  | unknownIdentifier (id : String)
  | alreadyInstalled
  deriving DecidableEq, Repr

def RegistryError.text : RegistryError → String
  | noConverter id => s!"no converter registered for logical type {id}"
  | noColumnConverter id => s!"no converter registered for {id}"
  | invalidStorageSpec factory => s!"invalid storage spec for {factory}"
  | invalidTraitsSpec factory => s!"invalid traits spec for {factory}"
  | cannotRegister factory cause => s!"cannot register {factory}: Serialization error: " ++ cause.text
  | logicalStorage id => s!"storage type of {id} must not be logical"
  | conflict id valueType storage =>
    s!"{id} is already registered for {valueType} with storage {storage}"
  | noLogicalType valueType => s!"no logical type registered for value type {valueType}"
  | unknownIdentifier id => s!"logical type {id} is not registered"
  | alreadyInstalled => "global extension registry is already installed"

inductive ConversionError where
  | misfit (valueType kind storage : String)
  | expectedValue (valueType : String)
  | wrongValueType (id handled asked : String)
  | expectedLong (what : String)
  | expectedStruct (what : String) (arity : Nat) (kind : String)
  | longField (what : String) (index : Nat)
  | intField (what : String) (index : Nat)
  | stringField (what : String) (index : Nat) (kind : String)
  | dayRange (day : Int)
  | nanoRange (nano : Int)
  | zoneOffset (seconds : Int)
  | zonedRange (wall offset : String)
  | durationRange (seconds : Int)
  | missingCategory
  | missingPath
  | geometryPayload
  | wkb (cause : Wkb.WkbError)
  | extension (reason : String)
  deriving DecidableEq, Repr

def ConversionError.text : ConversionError → String
  | misfit valueType kind storage =>
    s!"{valueType} encoded a {kind} value that does not fit storage type {storage}"
  | expectedValue valueType => s!"expected a value of type {valueType}"
  | wrongValueType id handled asked => s!"converter for {id} handles {handled}, not {asked}"
  | expectedLong what => s!"{what} expects int64 storage"
  | expectedStruct what arity kind => s!"{what} expects a struct of {arity} fields, got {kind}"
  | longField what index => s!"{what}: field {index} must be int64"
  | intField what index => s!"{what}: field {index} must be int32"
  | stringField what index kind => s!"{what}: field {index} must be string, got {kind}"
  | dayRange day => "day of epoch " ++ Text.decimal day ++ " is out of range"
  | nanoRange nano => "nano of day " ++ Text.decimal nano ++ " is out of range"
  | zoneOffset seconds => "invalid zone offset " ++ Text.decimal seconds
  | zonedRange wall offset => s!"{wall} {offset} is out of range"
  | durationRange seconds => "duration of " ++ Text.decimal seconds ++ "s is out of range"
  | missingCategory => "fs location without category"
  | missingPath => "fs location without path"
  | geometryPayload => "geometry payload must be a blob"
  | wkb cause => cause.message
  | extension reason => reason

inductive LayoutError where
  | arrayRange (index length : Nat)
  | noStorageValue (type : String)
  | mismatch (expected got : String)
  | unbuildable (type : String)
  | keysExhausted (key : String)
  | rowWithoutKey (row : Nat)
  | keyWithoutValue (key row : Nat)
  | chunkRange (row length : Nat)
  | notLogical (type : String)
  | wrongColumnType (held asked : String)
  | chunkType (index : Nat) (id actual expected : String)
  | columnRange (index length : Nat)
  | unequalColumns (left right : String)
  | zeroChunkSize
  | columnCount (schema given : Nat)
  | chunkCount (column chunks expected : Nat)
  | sentinelRange (value : Int)
  | sentinelText (text : String)
  | invalidWkt (text : String)
  | notGeometry (type : String)
  deriving DecidableEq, Repr

def LayoutError.text : LayoutError → String
  | arrayRange index length => s!"index {index} out of bounds for array of length {length}"
  | noStorageValue type => s!"no storage value for arrow type {type}"
  | mismatch expected got => s!"expected {expected} value, got {got}"
  | unbuildable type => s!"cannot build storage array of arrow type {type}"
  | keysExhausted key => s!"dictionary keys exhausted for {key}"
  | rowWithoutKey row => s!"dict-encoded row {row} has no key"
  | keyWithoutValue key row => s!"dictionary key {key} first used at row {row} without a value"
  | chunkRange row length => s!"row {row} out of bounds for dict chunk of length {length}"
  | notLogical type => s!"{type} is not a logical type"
  | wrongColumnType held asked => s!"column holds {held} values, not {asked}"
  | chunkType index id actual expected =>
    s!"chunk {index} of {id} has arrow type {actual}, expected {expected}"
  | columnRange index length => s!"index {index} out of bounds for column of length {length}"
  | unequalColumns left right => s!"cannot concatenate {left} and {right}"
  | zeroChunkSize => "chunk size must be positive"
  | columnCount schema given => s!"schema has {schema} columns but {given} were given"
  | chunkCount column chunks expected => s!"column {column} has {chunks} chunks, expected {expected}"
  | sentinelRange value => "sentinel " ++ Text.decimal value ++ " does not fit int32"
  | sentinelText text => s!"sentinel must be 'min', 'max' or an integer, got '{text}'"
  | invalidWkt text => s!"invalid WKT '{text}'"
  | notGeometry type => s!"{type} is not a geometry type"

inductive FieldError where
  | field (index : Nat) (name : String) (cause : FieldError)
  | notStruct (type : String)
  | childCount (count : Nat)
  | keyType (type : String)
  | noStorageType (type : String)
  | storageMismatch (id registered stored : String)
  | batchColumns (batch schema : Nat)
  | notContainer (path : String)
  | construction (cause : ConstructionError)
  deriving DecidableEq, Repr

def FieldError.label : FieldError → String
  | construction _ => "Construction error: "
  | _ => "Schema error: "

def FieldError.text : FieldError → String
  | field index name cause => s!"field {index} ('{name}'): " ++ cause.label ++ cause.text
  | notStruct type => s!"dict-encoded column must be a struct, got {type}"
  | childCount count => s!"dict-encoded struct must have 2 children, got {count}"
  | keyType type => s!"unsupported dictionary key type {type}"
  | noStorageType type => s!"no storage type for arrow type {type}"
  | storageMismatch id registered stored =>
    s!"logical type {id} is registered with storage {registered} but the field stores {stored}"
  | batchColumns batch schema => s!"batch has {batch} columns but the schema has {schema}"
  | notContainer path => s!"{path} is not an Arrow IPC file"
  | construction cause => cause.text

def FieldError.message (e : FieldError) : String := e.label ++ e.text

inductive ArrowFault where
  | invalidArgument
  | parser
  | io
  deriving DecidableEq, Repr

def ArrowFault.text : ArrowFault → String
  | invalidArgument => "Invalid argument error"
  | parser => "Parser error"
  | io => "Io error"

inductive FileFault where
  | absent
  | directory
  | shortRead
  | notUtf8
  deriving DecidableEq, Repr

def FileFault.text : FileFault → String
  | absent => "No such file or directory (os error 2)"
  | directory => "Is a directory (os error 21)"
  | shortRead => "failed to fill whole buffer"
  | notUtf8 => "stream did not contain valid UTF-8"

inductive Error where
  | construction (e : ConstructionError)
  | lookup (e : LookupError)
  | serialization (e : SerializationError)
  | registry (e : RegistryError)
  | conversion (e : ConversionError)
  | layout (e : LayoutError)
  | field (e : FieldError)
  | arrow (fault : ArrowFault)
  | file (fault : FileFault)
  /-- No error that a caller can handle: more memory was asked for than can be counted, and the call ends
  there. -/
  | capacityOverflow
  deriving DecidableEq, Repr

namespace Error

def message : Error → String
  | construction e => e.message
  | lookup e => "Lookup error: " ++ e.text
  | serialization e => "Serialization error: " ++ e.text
  | registry e => "Registry error: " ++ e.text
  | conversion e => "Conversion error: " ++ e.text
  | layout e => "Conversion error: " ++ e.text
  | field e => e.message
  | arrow fault => "Arrow error: " ++ fault.text
  | file fault => "I/O error: " ++ fault.text
  | capacityOverflow => "capacity overflow"

/-- A malformed type found in a field is a construction error. -/
def ofField : FieldError → Error
  | .construction e => .construction e
  | e => .field e

end Error

/-- A failure of one class as a failure of a wider one. -/
def orFail (wrap : ε → δ) : Except ε α → Except δ α
  | .ok a => .ok a
  | .error e => .error (wrap e)

@[simp] theorem ok_bind (a : α) (f : α → Except ε β) : (Except.ok a >>= f) = f a := rfl

@[simp] theorem error_bind (e : ε) (f : α → Except ε β) : (Except.error e >>= f) = .error e := rfl

theorem bind_eq_ok {x : Except ε α} {f : α → Except ε β} {b : β} :
    (x >>= f) = .ok b ↔ ∃ a, x = .ok a ∧ f a = .ok b := by
  cases x <;> simp

theorem orFail_eq_ok {wrap : ε → δ} {x : Except ε α} {a : α} :
    orFail wrap x = .ok a ↔ x = .ok a := by
  cases x <;> simp [orFail]

theorem orFail_eq_error {wrap : ε → δ} {x : Except ε α} {e : δ} :
    orFail wrap x = .error e ↔ ∃ d, x = .error d ∧ wrap d = e := by
  cases x <;> simp [orFail]

end LogicalTable
