import LogicalTable.Registry.Basic
import LogicalTable.Registry.Factory

/-! The logical types every table may use: times, file locations and geometries. -/
namespace LogicalTable.Registry

def timeId (name : String) : String := factoryId ("org.knime.core.data.v2.time." ++ name)

def builtInEntries : List Entry := [
  ⟨timeId "LocalDateValueFactory", .int64, none, .date⟩,
  ⟨timeId "LocalTimeValueFactory", .int64, none, .time⟩,
  ⟨timeId "LocalDateTimeValueFactory", .record .int64 [.int64], none, .dateTime⟩,
  ⟨timeId "DurationValueFactory", .record .int64 [.int32], none, .duration⟩,
  ⟨timeId "ZonedDateTimeValueFactory2", .record .int64 [.int64, .int32, .string], none,
    .zonedDateTime⟩,
  ⟨factoryId "org.knime.filehandling.core.data.location.FSLocationValueFactory",
    .record .string [.string, .string], none, .fileLocation⟩]

def geoFamily : String := "org.knime.geospatial"

def geoClass (cell : String) : String :=
  geoFamily ++ ".core.data.cell." ++ cell ++ "$ValueFactory"

/-- Geospatial types, of which the point serves as the default for geometries. -/
def geoEntries : List Entry :=
  ["GeoPointCell", "GeoLineCell", "GeoPolygonCell", "GeoMultiPointCell", "GeoMultiLineCell",
    "GeoMultiPolygonCell", "GeoCollectionCell"].map fun cell =>
      ⟨factoryId (geoClass cell), .record .blob [.string], none, .geometry⟩

def occursIn (part : List Char) : List Char → Bool
  | [] => part.isEmpty
  | c :: cs => part.isPrefixOf (c :: cs) || occursIn part cs

def isGeoId (id : String) : Bool := occursIn geoFamily.toList id.toList

def geoConverter? (r : Registry) (id : String) : Option Converter :=
  (r.find? id).filter fun c => isGeoId c.id && c.valueType == .geometry

def builtIn : Registry := (empty.registerAll builtInEntries).1

/-- The registry of all types that need no extension. -/
def standard : Registry := (builtIn.registerAll geoEntries).1

end LogicalTable.Registry
