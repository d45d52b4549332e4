import LogicalTable.Geometry.Basic

/-! Well-known binary: the type codes and the little-endian writer. -/
namespace LogicalTable.Wkb

def typeCode : Geometry → Nat
  | .point _ => 1
  | .line _ _ | .lineString _ => 2
  | .polygon _ | .rect _ _ | .triangle _ _ _ => 3
  | .multiPoint _ => 4
  | .multiLineString _ => 5
  | .multiPolygon _ => 6
  | .collection _ => 7

def littleEndian : (bytes n : Nat) → List UInt8
  | 0, _ => []
  | bytes + 1, n => UInt8.ofNat n :: littleEndian bytes (n / 256)

def header (code : Nat) : List UInt8 := 1 :: littleEndian 4 code

def countBytes (n : Nat) : List UInt8 := littleEndian 4 n

def coordBytes (c : Coord) : List UInt8 :=
  littleEndian 8 c.x.bits.toNat ++ littleEndian 8 c.y.bits.toNat

def coordsBytes (cs : List Coord) : List UInt8 := countBytes cs.length ++ cs.flatMap coordBytes

/-- The rings of a polygon; an empty one has none. -/
def polygonBytes (p : Polygon) : List UInt8 :=
  if p.isEmpty then countBytes 0
  else countBytes p.rings.length ++ p.rings.flatMap coordsBytes

mutual

def write : Geometry → List UInt8
  | .point c => header 1 ++ coordBytes c
  | .line a b => header 2 ++ coordsBytes [a, b]
  | .lineString cs => header 2 ++ coordsBytes cs
  | .polygon p => header 3 ++ polygonBytes p
  | .rect low high => header 3 ++ polygonBytes (Geometry.rectPolygon low high)
  | .triangle a b c => header 3 ++ polygonBytes (Geometry.trianglePolygon a b c)
  | .multiPoint cs =>
    header 4 ++ countBytes cs.length ++ cs.flatMap fun c => header 1 ++ coordBytes c
  | .multiLineString ls =>
    header 5 ++ countBytes ls.length ++ ls.flatMap fun l => header 2 ++ coordsBytes l
  | .multiPolygon ps =>
    header 6 ++ countBytes ps.length ++ ps.flatMap fun p => header 3 ++ polygonBytes p
  | .collection gs => header 7 ++ countBytes gs.length ++ writeAll gs

def writeAll : List Geometry → List UInt8
  | [] => []
  | g :: gs => write g ++ writeAll gs

end

end LogicalTable.Wkb
