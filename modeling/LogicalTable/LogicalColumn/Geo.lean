import LogicalTable.LogicalColumn.Builder
import LogicalTable.Registry.BuiltIn

/-! Columns of geometries: logical columns whose identifier is geospatial. -/
namespace LogicalTable.GeoColumn

def checkType (t : DataType) : Except LayoutError Unit :=
  match t with
  | .logical id _ _ => if Registry.isGeoId id then .ok () else .error (.notGeometry t.text)
  | .plain _ => .error (.notGeometry t.text)

def ofChunks (t : DataType) (cs : List Chunk) : Except Error LogicalColumn := do
  orFail .layout (checkType t)
  LogicalColumn.ofChunks t .geometry cs

def ofValues (t : DataType) (gs : List (Option GeoValue)) (chunkSize : Nat) :
    Except Error LogicalColumn := do
  orFail .layout (checkType t)
  let b ← ColumnBuilder.new t .geometry chunkSize
  match b.extend (gs.map fun g => g.map .geometry) with
  | (b, .ok ()) => b.column
  | (_, .error e) => throw e

end LogicalTable.GeoColumn
