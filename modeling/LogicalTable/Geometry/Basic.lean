import LogicalTable.Binary64.Rounding

/-! Planar geometries. Rings of polygons are closed when they are made. -/
namespace LogicalTable

structure Coord where
  x : Binary64
  y : Binary64
  deriving DecidableEq, Repr

def Coord.same (a b : Coord) : Bool := a.x.same b.x && a.y.same b.y

/-- Repeats the first coordinate at the end unless the last one equals it. -/
def closing (cs : List Coord) : List Coord :=
  match cs.head?, cs.getLast? with
  | some a, some b => if a.same b then cs else cs ++ [a]
  | _, _ => cs

/-- Coordinates that closing has yielded. A ring that starts with NaN never equals itself and
holds its first coordinate once more. -/
structure Ring where
  coords : List Coord
  closed : ∃ cs, closing cs = coords
  deriving DecidableEq, Repr

def Ring.close (cs : List Coord) : Ring := ⟨closing cs, cs, rfl⟩

structure Polygon where
  exterior : Ring
  interiors : List Ring
  deriving DecidableEq, Repr

namespace Polygon

/-- The first ring is the exterior, empty if there is none. -/
def ofRings : List (List Coord) → Polygon
  | [] => ⟨Ring.close [], []⟩
  | r :: rs => ⟨Ring.close r, rs.map Ring.close⟩

def rings (p : Polygon) : List (List Coord) := p.exterior.coords :: p.interiors.map Ring.coords

def isEmpty (p : Polygon) : Bool := p.exterior.coords.isEmpty && p.interiors.isEmpty

end Polygon

inductive Geometry where
  | point (c : Coord)
  | line (a b : Coord)
  | lineString (cs : List Coord)
  | polygon (p : Polygon)
  | multiPoint (cs : List Coord)
  | multiLineString (ls : List (List Coord))
  | multiPolygon (ps : List Polygon)
  | collection (gs : List Geometry)
  | rect (low high : Coord)
  | triangle (a b c : Coord)

namespace Geometry

def ofCorners (a b : Coord) : Geometry :=
  let (x₁, x₂) := if a.x.less b.x then (a.x, b.x) else (b.x, a.x)
  let (y₁, y₂) := if a.y.less b.y then (a.y, b.y) else (b.y, a.y)
  rect ⟨x₁, y₁⟩ ⟨x₂, y₂⟩

def crossProduct (a b c : Coord) : Binary64 :=
  ((b.x.sub a.x).mul (c.y.sub a.y)).sub ((b.y.sub a.y).mul (c.x.sub a.x))

/-- The triangle with three given corners, in counter-clockwise order. -/
def ofVertices (a b c : Coord) : Geometry :=
  if (crossProduct a b c).less Binary64.zero then triangle c b a else triangle a b c

def rectPolygon (low high : Coord) : Polygon :=
  .ofRings [[⟨high.x, low.y⟩, ⟨high.x, high.y⟩, ⟨low.x, high.y⟩, ⟨low.x, low.y⟩, ⟨high.x, low.y⟩]]

def trianglePolygon (a b c : Coord) : Polygon := .ofRings [[a, b, c, a]]

mutual

/-- The same geometry in the seven kinds that have an encoding of their own. -/
def normal : Geometry → Geometry
  | line a b => lineString [a, b]
  | rect low high => polygon (rectPolygon low high)
  | triangle a b c => polygon (trianglePolygon a b c)
  | collection gs => collection (normalAll gs)
  | g => g

def normalAll : List Geometry → List Geometry
  | [] => []
  | g :: gs => g.normal :: normalAll gs

end

end Geometry
end LogicalTable
