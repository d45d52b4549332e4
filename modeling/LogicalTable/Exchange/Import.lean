import LogicalTable.Exchange.Export
import LogicalTable.Exchange.Reader

/-! Schemas from documents. Every identifier must be registered with the same physical storage,
but for the row key and the host's own factories for primitives and lists, which are unwrapped. -/
namespace LogicalTable.Exchange

def hostPackage : String := "org.knime.core.data.v2.value."

def hostPrimitive? (name : List Char) : Option Primitive :=
  if name = "Int".toList then some .int32
  else if name = "Long".toList then some .int64
  else if name = "Double".toList then some .double
  else if name = "String".toList then some .string
  else if name = "Boolean".toList then some .bool
  else none

def afterStart? (start text : List Char) : Option (List Char) :=
  if start.isPrefixOf text then some (text.drop start.length) else none

def beforeEnd? (stop text : List Char) : Option (List Char) :=
  if stop.isSuffixOf text then some (text.take (text.length - stop.length)) else none

/-- The class that an identifier names: the one member of a JSON record. -/
def factoryClass? (id : String) : Option String :=
  match Json.whole (Json.record [⟨"value_factory_class", valueUnder 1⟩]) id.toList with
  | some [.string name] => some name
  | _ => none

def hostClass? (id : String) : Option (List Char) :=
  (factoryClass? id).bind fun name => afterStart? hostPackage.toList name.toList

/-- Whether an identifier names one of the host's factories for plain primitives or lists, and the
shape is theirs. -/
def isHostWrapper (id : String) (s : Shape) : Bool :=
  match hostClass? id with
  | none => false
  | some name =>
    match s with
    | .primitive p => (beforeEnd? "ValueFactory".toList name).bind hostPrimitive? == some p
    | .list item =>
      match beforeEnd? "ListValueFactory".toList name with
      | some [] => true
      | some start =>
        match hostPrimitive? start, item with
        | some p, .plain (.primitive q) => p == q
        | _, _ => false
      | none => false
    | .struct _ => false

def isHostWrapperOf (id : String) : DataType → Bool
  | .plain s => isHostWrapper id s
  | .logical _ _ _ => false

def applyLogical (r : Registry) (s : Shape) (id : Option String) :
    Except SerializationError DataType :=
  match id with
  | none => .ok (.plain s)
  | some id =>
    if isHostWrapper id s then .ok (.plain s)
    else
      match r.find? id with
      | none => .error (.unregistered id)
      | some c =>
        if c.storage.samePhysical s then .ok (.logical id s (some c))
        else .error (.storageMismatch id c.storage.text s.text)

mutual

def importShape (r : Registry) : Spec → Traits → Except SerializationError Shape
  | .leaf tag, .simple _ =>
    match Primitive.ofTag? tag with
    | some p => .ok (.primitive p)
    | none => .error (.unknownType tag)
  | .list spec, .list _ node => do
    let s ← importShape r spec node
    let item ← applyLogical r s node.own.logicalType
    return .list item
  | .struct specs, .struct _ nodes =>
    if specs.length ≠ nodes.length then .error (.memberCount specs.length nodes.length)
    else do
      match ← importTypes r specs nodes with
      | [] => throw (.construction .emptyStruct)
      | t :: ts => return .struct (.ofList t ts)
  | spec, node => .error (.shapeMismatch spec.kind node.kind)

def importTypes (r : Registry) : List Spec → List Traits → Except SerializationError (List DataType)
  | spec :: specs, node :: nodes => do
    let s ← importShape r spec node
    let t ← applyLogical r s node.own.logicalType
    let ts ← importTypes r specs nodes
    return t :: ts
  | _, _ => .ok []

end

/-- The identifier of a column's type: on the first column the row key stands for the inner one. -/
def columnId (index : Nat) (m : TraitMap) : Option String :=
  if index = 0 ∧ m.logicalType = some rowKeyId then m.innerLogicalType else m.logicalType

def importColumnType (r : Registry) (index : Nat) (spec : Spec) (node : Traits) :
    Except SerializationError DataType := do
  let s ← importShape r spec node
  applyLogical r s (columnId index node.own)

def importColumns (r : Registry) : (index : Nat) → List Spec → List Traits → List String →
    List (Option String) → Except SerializationError (List Column)
  | index, spec :: specs, node :: nodes, name :: names, metadata :: metadatas => do
    let t ← orFail (.column index name) (importColumnType r index spec node)
    let c ← orFail .construction (Column.make? t name metadata)
    let cs ← importColumns r (index + 1) specs nodes names metadatas
    return c :: cs
  | _, _, _, _, _ => .ok []

def importSchema (d : Document) (r : Registry) : Except SerializationError Schema :=
  let n := d.specs.length
  if d.traits.length ≠ n ∨ d.names.length ≠ n ∨ d.metadata.length ≠ n then
    .error (.lengths n d.traits.length d.names.length d.metadata.length)
  else (importColumns r 0 d.specs d.traits d.names d.metadata).map Schema.mk

def importJson (j : Json) (r : Registry) : Except SerializationError Schema :=
  match Document.ofJson? j with
  | some d => importSchema d r
  | none => .error .invalidJson

def importText (text : String) (r : Registry) : Except SerializationError Schema :=
  match Document.ofText? text with
  | some d => importSchema d r
  | none => .error .invalidJson

end LogicalTable.Exchange

namespace LogicalTable.Registry

/-- Registers a factory from the JSON texts of its storage and its traits. The identifier is the one
among the traits, else that of the factory class. -/
def register (r : Registry) (module name spec traits : String) (f : ValueFactory) :
    Except RegistryError (Registry × Converter) := do
  let some spec := Exchange.specOfText? spec | throw (.invalidStorageSpec name)
  let some node := Exchange.traitsOfText? traits | throw (.invalidTraitsSpec name)
  let storage ← orFail (.cannotRegister name) (Exchange.importShape r spec node)
  let id := node.own.logicalType.getD (factoryId (module ++ "." ++ name))
  r.registerShape id storage node.own.dictEncoding f

end LogicalTable.Registry
