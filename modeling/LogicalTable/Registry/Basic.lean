import LogicalTable.DataType.Converter
import LogicalTable.Json.Printer

/-! The registry of logical types: converters in order of registration, one for each identifier. -/
namespace LogicalTable

structure Registry where
  converters : List Converter
  distinct : (converters.map Converter.id).Nodup

namespace Registry

def empty : Registry := ⟨[], List.nodup_nil⟩

def size (r : Registry) : Nat := r.converters.length

def isEmpty (r : Registry) : Bool := r.converters.isEmpty

def ids (r : Registry) : List String := r.converters.map Converter.id

def find? (r : Registry) (id : String) : Option Converter := r.converters.find? (·.id = id)

theorem id_of_find? {r : Registry} {id : String} {c : Converter} (h : r.find? id = some c) :
    c.id = id := by
  simpa using List.find?_some h

theorem find?_eq_none {r : Registry} {id : String} : r.find? id = none ↔ id ∉ r.ids := by
  simp [find?, ids]

def push (r : Registry) (c : Converter) (h : r.find? c.id = none) : Registry where
  converters := r.converters ++ [c]
  distinct := by
    rw [List.map_append, List.nodup_append]
    refine ⟨r.distinct, by simp, ?_⟩
    intro a ha b hb hab
    rw [List.map_singleton, List.mem_singleton] at hb
    exact find?_eq_none.1 h (hb ▸ hab ▸ ha)

def agrees (c : Converter) (storage : Shape) (dictKey : Option DictKey) (f : ValueFactory) : Bool :=
  c.storage.same storage && c.valueType == f.valueType && c.dictKey == dictKey

/-- Registers a factory for a storage shape. Registering the same again returns the converter that
is there; anything else under a known identifier is a conflict. -/
def registerShape (r : Registry) (id : String) (storage : Shape) (dictKey : Option DictKey)
    (f : ValueFactory) : Except RegistryError (Registry × Converter) :=
  match h : r.find? id with
  | some c =>
    if agrees c storage dictKey f then .ok (r, c)
    else .error (.conflict id c.valueType.name c.storage.text)
  | none => .ok (r.push (.mk id storage dictKey f) h, .mk id storage dictKey f)

def registerType (r : Registry) (id : String) (t : DataType) (dictKey : Option DictKey)
    (f : ValueFactory) : Except RegistryError (Registry × Converter) :=
  match t with
  | .plain s => r.registerShape id s dictKey f
  | .logical _ _ _ => .error (.logicalStorage id)

/-- The converter for a value type: the first one registered for it. -/
def converterFor (r : Registry) (t : ValueType) : Except RegistryError Converter :=
  match r.converters.find? (·.valueType = t) with
  | some c => .ok c
  | none => .error (.noLogicalType t.name)

def logicalFor (r : Registry) (t : ValueType) : Except RegistryError DataType :=
  (r.converterFor t).map Converter.logicalType

def logicalById (r : Registry) (id : String) : Except RegistryError DataType :=
  match r.find? id with
  | some c => .ok c.logicalType
  | none => .error (.unknownIdentifier id)

/-- The logical type of the first converter whose value type has the full or short name. -/
def logicalByName (r : Registry) (name : String) : Except RegistryError DataType :=
  match r.converters.find? fun c => c.valueType.name = name || c.valueType.shortName = name with
  | some c => .ok c.logicalType
  | none => .error (.noLogicalType name)

structure Entry where
  id : String
  storage : Shape
  dictKey : Option DictKey
  factory : ValueFactory

/-- Registers entries in order up to the first that fails; those before it stay registered. -/
def registerAll (r : Registry) : List Entry → Registry × Option RegistryError
  | [] => (r, none)
  | e :: es =>
    match r.registerShape e.id e.storage e.dictKey e.factory with
    | .ok (r, _) => r.registerAll es
    | .error e => (r, some e)

end Registry

/-- The converter that serves a logical type: its own, or the registered one. -/
def DataType.converterIn? (t : DataType) (r : Registry) : Option Converter :=
  match t with
  | .plain _ => none
  | .logical id _ c => c <|> r.find? id

def DataType.dictKeyIn? (t : DataType) (r : Registry) : Option DictKey :=
  (t.converterIn? r).bind Converter.dictKey

/-- The registry of the process, which can be installed once. Before that it is empty. -/
structure GlobalRegistry where
  installed : Option Registry := none

namespace GlobalRegistry

def registry (g : GlobalRegistry) : Registry := g.installed.getD .empty

def install (g : GlobalRegistry) (r : Registry) : Except RegistryError GlobalRegistry :=
  match g.installed with
  | some _ => .error .alreadyInstalled
  | none => .ok ⟨some r⟩

end GlobalRegistry

def factoryId (className : String) : String :=
  Json.text (.object [("value_factory_class", .string className)])

end LogicalTable
