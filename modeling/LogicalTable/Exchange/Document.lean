import LogicalTable.DataType.Basic
import LogicalTable.Json.Parser
import LogicalTable.Json.Printer

/-! Schema documents, which processes exchange: for each column a specification of its physical
shape and a tree of traits alongside, its name and its metadata. The JSON form of documents. -/
namespace LogicalTable.Exchange

open LogicalTable (Json)

inductive Spec where
  | leaf (tag : String)
  | list (item : Spec)
  | struct (members : List Spec)

structure TraitMap where
  logicalType : Option String := none
  innerLogicalType : Option String := none
  dictEncoding : Option DictKey := none
  deriving DecidableEq, Repr

def TraitMap.empty : TraitMap := {}

def TraitMap.isEmpty (m : TraitMap) : Bool := m == TraitMap.empty

inductive Traits where
  | simple (own : TraitMap)
  | list (own : TraitMap) (item : Traits)
  | struct (own : TraitMap) (members : List Traits)

namespace Traits

def own : Traits → TraitMap
  | simple own => own
  | list own _ => own
  | struct own _ => own

def withOwn (m : TraitMap) : Traits → Traits
  | simple _ => simple m
  | list _ item => list m item
  | struct _ members => struct m members

def kind : Traits → String
  | simple _ => "simple"
  | list _ _ => "list"
  | struct _ _ => "struct"

end Traits

def Spec.kind : Spec → String
  | .leaf _ => "leaf"
  | .list _ => "list"
  | .struct _ => "struct"

structure Document where
  specs : List Spec
  traits : List Traits
  names : List String
  metadata : List (Option String)

mutual

def Spec.json : Spec → Json
  | .leaf tag => .string tag
  | .list item => .object [("type", .string "list"), ("inner_type", item.json)]
  | .struct members =>
    .object [("type", .string "struct"), ("inner_types", .array (Spec.jsonAll members))]

def Spec.jsonAll : List Spec → List Json
  | [] => []
  | s :: ss => s.json :: Spec.jsonAll ss

end

/-- Traits that are not set are left out. -/
def TraitMap.json (m : TraitMap) : Json :=
  .object ([("logical_type", m.logicalType), ("inner_logical_type", m.innerLogicalType),
    ("dict_encoding", m.dictEncoding.map DictKey.name)].filterMap
      fun (name, value) => value.map fun v => (name, .string v))

mutual

def Traits.json : Traits → Json
  | .simple own => .object [("type", .string "simple"), ("traits", own.json)]
  | .list own item =>
    .object [("type", .string "list"), ("traits", own.json), ("inner", item.json)]
  | .struct own members =>
    .object [("type", .string "struct"), ("traits", own.json),
      ("inner", .array (Traits.jsonAll members))]

def Traits.jsonAll : List Traits → List Json
  | [] => []
  | t :: ts => t.json :: Traits.jsonAll ts

end

def Document.json (d : Document) : Json :=
  .object [
    ("schema", .object [("specs", .array (Spec.jsonAll d.specs)),
      ("traits", .array (Traits.jsonAll d.traits))]),
    ("columnNames", .array (d.names.map .string)),
    ("columnMetaData", .array (d.metadata.map .ofOption))]

end LogicalTable.Exchange
