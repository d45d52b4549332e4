import LogicalTable.DataType.Basic
import LogicalTable.Text.Blank

/-! Columns: a type under a name that is not blank, with free-form metadata. -/
namespace LogicalTable

structure Column where
  type : DataType
  name : String
  metadata : Option String
  named : Text.allBlank name = false

namespace Column

def make? (type : DataType) (name : String) (metadata : Option String) :
    Except ConstructionError Column :=
  if h : Text.allBlank name = false then .ok ⟨type, name, metadata, h⟩
  else .error (.blankName type.text)

def withName? (c : Column) (name : String) : Except ConstructionError Column :=
  make? c.type name c.metadata

def same (c d : Column) : Bool := c.type.same d.type && c.name == d.name && c.metadata == d.metadata

instance : BEq Column := ⟨same⟩

/-- What counts for the equality of columns. -/
def key (c : Column) : DataType × String × Option String := (c.type.bare, c.name, c.metadata)

theorem beq_iff {c d : Column} : (c == d) = true ↔ c.key = d.key := by
  change c.same d = true ↔ _
  simp [same, key, DataType.same_iff, and_assoc]

def text (c : Column) : String :=
  "Column<'" ++ c.name ++ "', " ++ c.type.text ++
    (match c.metadata with
      | some m => ", " ++ m
      | none => "") ++ ">"

end Column
end LogicalTable
