import LogicalTable.Binary64.Text
import LogicalTable.Geometry.Basic

/-! Well-known text: how geometries are written. -/
namespace LogicalTable.Wkt

def coordText (c : Coord) : String := c.x.text ++ " " ++ c.y.text

def coordsText (cs : List Coord) : String := ",".intercalate (cs.map coordText)

def listsText (ls : List (List Coord)) : String := "(" ++ "),(".intercalate (ls.map coordsText) ++ ")"

/-- The rings that are written: an empty exterior is left out. -/
def writtenRings (p : Polygon) : List (List Coord) :=
  if p.exterior.coords.isEmpty then p.interiors.map Ring.coords else p.rings

def tagged (keyword : String) (empty : Bool) (content : String) : String :=
  if empty then keyword ++ " EMPTY" else keyword ++ "(" ++ content ++ ")"

def lineText (cs : List Coord) : String := tagged "LINESTRING" cs.isEmpty (coordsText cs)

def polygonText (p : Polygon) : String :=
  tagged "POLYGON" (writtenRings p).isEmpty (listsText (writtenRings p))

mutual

def write : Geometry → String
  | .point c => tagged "POINT" false (coordText c)
  | .line a b => lineText [a, b]
  | .lineString cs => lineText cs
  | .polygon p => polygonText p
  | .rect low high => polygonText (Geometry.rectPolygon low high)
  | .triangle a b c => polygonText (Geometry.trianglePolygon a b c)
  | .multiPoint cs => tagged "MULTIPOINT" cs.isEmpty (listsText (cs.map ([·])))
  | .multiLineString ls => tagged "MULTILINESTRING" ls.isEmpty (listsText ls)
  | .multiPolygon ps =>
    tagged "MULTIPOLYGON" ps.isEmpty
      (",".intercalate (ps.map fun p => "(" ++ listsText (writtenRings p) ++ ")"))
  | .collection gs => tagged "GEOMETRYCOLLECTION" gs.isEmpty (",".intercalate (writeAll gs))

def writeAll : List Geometry → List String
  | [] => []
  | g :: gs => write g :: writeAll gs

end

end LogicalTable.Wkt
