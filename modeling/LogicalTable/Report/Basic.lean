import LogicalTable.Exchange.Export
import LogicalTable.Report.Grid
import LogicalTable.Table.Basic

/-! What the program prints about schemas, tables and registries: text for readers, or JSON in one
line with sorted members. -/
namespace LogicalTable

inductive ReportFormat where
  | text
  | json
  deriving DecidableEq, Repr

namespace ReportFormat

def all : List ReportFormat := [text, json]

def name : ReportFormat → String
  | text => "text"
  | json => "json"

def ofName? (s : String) : Option ReportFormat := all.find? (·.name = s)

end ReportFormat

namespace Report

def jsonLine (j : Json) : String := j.sorted.text ++ "\n"

/-- A schema; as JSON it is the document that the registry writes. -/
def schema (f : ReportFormat) (r : Registry) (s : Schema) : Except SerializationError String :=
  match f with
  | .text => .ok (s.text ++ "\n")
  | .json => (Exchange.exportJson s r).map jsonLine

def table (f : ReportFormat) (r : Registry) (t : Table) : Except SerializationError String :=
  let batches := t.batches.length
  match f with
  | .text =>
    .ok (t.schema.text ++ "\nbatches: " ++ Nat.repr batches ++ "\nrows: " ++ Nat.repr t.size ++
      "\n")
  | .json => (Exchange.exportJson t.schema r).map fun document => jsonLine (.object [
      ("schema", document), ("batches", .natural batches), ("rows", .natural t.size)])

def keyName (c : Converter) : Option String := c.dictKey.map DictKey.name

def typesGrid (r : Registry) : Grid where
  header := ["Value type", "Storage", "Dict", "Logical type"]
  rows := r.converters.map fun c =>
    [c.valueType.shortName, c.storage.text, (keyName c).getD "", c.id]

def typesJson (r : Registry) : Json :=
  .array (r.converters.map fun c => .object [
    ("logical_type", .string c.id), ("value_type", .string c.valueType.name),
    ("storage", .string c.storage.text), ("dict_encoding", .ofOption (keyName c))])

def types (f : ReportFormat) (r : Registry) : String :=
  match f with
  | .text => (typesGrid r).text ++ "\n"
  | .json => jsonLine (typesJson r)

end Report
end LogicalTable
