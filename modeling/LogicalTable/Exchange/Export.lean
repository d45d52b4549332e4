import LogicalTable.Exchange.Document
import LogicalTable.Registry.Basic
import LogicalTable.Schema.Basic

/-! Schemas as documents. The first column is tagged as the row key, its own identifier moving to
the inner trait, and a list of logical items is tagged as such. -/
namespace LogicalTable.Exchange

def rowKeyId : String :=
  "\x7b\"value_factory_class\":\"org.knime.core.data.v2.value.DefaultRowKeyValueFactory\"\x7d"

def listId : String :=
  "\x7b\"value_factory_class\":\"org.knime.core.data.v2.value.ListValueFactory\"\x7d"

mutual

def shapeSpec : Shape → Spec
  | .primitive p => .leaf p.tag
  | .list item => .list (typeSpec item)
  | .struct members => .struct (membersSpec members)

def typeSpec : DataType → Spec
  | .plain s => shapeSpec s
  | .logical _ s _ => shapeSpec s

def membersSpec : Members → List Spec
  | .one t => [typeSpec t]
  | .cons t ts => typeSpec t :: membersSpec ts

end

mutual

def shapeTraits (r : Registry) : Shape → Traits
  | .primitive _ => .simple .empty
  | .list item =>
    .list (if item.isLogical then { logicalType := some listId } else .empty) (typeTraits r item)
  | .struct members => .struct .empty (membersTraits r members)

/-- The traits of a type. The node of a logical type holds its identifier and key width in place of
the traits of its storage. -/
def typeTraits (r : Registry) : DataType → Traits
  | .plain s => shapeTraits r s
  | .logical id s c =>
    let node := shapeTraits r s
    node.withOwn { node.own with
      logicalType := some id
      dictEncoding := (DataType.logical id s c).dictKeyIn? r }

def membersTraits (r : Registry) : Members → List Traits
  | .one t => [typeTraits r t]
  | .cons t ts => typeTraits r t :: membersTraits r ts

end

def rowKeyTraits (r : Registry) (t : DataType) : Traits :=
  let node := typeTraits r t
  node.withOwn { node.own with logicalType := some rowKeyId, innerLogicalType := t.id? }

def columnTraits (r : Registry) : List DataType → List Traits
  | [] => []
  | t :: ts => rowKeyTraits r t :: ts.map (typeTraits r)

def duplicate? : (seen : List String) → List String → Option String
  | _, [] => none
  | seen, n :: ns => if seen.contains n then some n else duplicate? (n :: seen) ns

/-- The document of a schema whose names differ when trimmed. -/
def exportSchema (s : Schema) (r : Registry) : Except SerializationError Document :=
  match duplicate? [] (s.names.map Text.trim) with
  | some name => .error (.duplicateName name)
  | none => .ok ⟨s.types.map typeSpec, columnTraits r s.types, s.names,
      s.columns.map Column.metadata⟩

def exportJson (s : Schema) (r : Registry) : Except SerializationError Json :=
  (exportSchema s r).map Document.json

def exportText (s : Schema) (r : Registry) : Except SerializationError String :=
  (exportJson s r).map Json.text

end LogicalTable.Exchange
