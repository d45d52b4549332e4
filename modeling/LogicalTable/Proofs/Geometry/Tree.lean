import LogicalTable.Geometry.WkbReader

/-! Well-known binary as trees. Every geometry of a tree states a byte order of its own, which holds
for its type, its counts and its coordinates, but not for its members. -/
namespace LogicalTable.Wkb

namespace Endian

def mark : Endian → UInt8
  | little => 1
  | big => 0

def bytes (e : Endian) (size n : Nat) : List UInt8 :=
  match e with
  | little => littleEndian size n
  | big => (littleEndian size n).reverse

def header (e : Endian) (code : Nat) : List UInt8 := e.mark :: e.bytes 4 code

def coord (e : Endian) (c : Coord) : List UInt8 :=
  e.bytes 8 c.x.bits.toNat ++ e.bytes 8 c.y.bits.toNat

def counted (e : Endian) (item : α → List UInt8) (as : List α) : List UInt8 :=
  e.bytes 4 as.length ++ as.flatMap item

def coords (e : Endian) (cs : List Coord) : List UInt8 := e.counted e.coord cs

def rings (e : Endian) (rs : List (List Coord)) : List UInt8 := e.counted e.coords rs

end Endian

def CountFits (as : List α) : Prop := as.length < 0x100000000

def RingsFit (rs : List (List Coord)) : Prop := CountFits rs ∧ ∀ r ∈ rs, CountFits r

instance (as : List α) : Decidable (CountFits as) := Nat.decLt _ _

instance (rs : List (List Coord)) : Decidable (RingsFit rs) :=
  inferInstanceAs (Decidable (CountFits rs ∧ ∀ r ∈ rs, CountFits r))

/-- What a geometry holds, under the byte order that it states. -/
structure Node (α : Type) where
  order : Endian
  content : α

def Node.bytes (code : Nat) (body : Endian → α → List UInt8) (n : Node α) : List UInt8 :=
  n.order.header code ++ body n.order n.content

/-- A geometry as it is encoded. Multi geometries have members of their own kind only. -/
inductive Tree where
  | point (n : Node Coord)
  | lineString (n : Node (List Coord))
  | polygon (n : Node (List (List Coord)))
  | multiPoint (n : Node (List (Node Coord)))
  | multiLineString (n : Node (List (Node (List Coord))))
  | multiPolygon (n : Node (List (Node (List (List Coord)))))
  | collection (order : Endian) (members : List Tree)

namespace Tree

def order : Tree → Endian
  | point n => n.order
  | lineString n => n.order
  | polygon n => n.order
  | multiPoint n => n.order
  | multiLineString n => n.order
  | multiPolygon n => n.order
  | collection order _ => order

def code : Tree → Nat
  | point _ => 1
  | lineString _ => 2
  | polygon _ => 3
  | multiPoint _ => 4
  | multiLineString _ => 5
  | multiPolygon _ => 6
  | collection _ _ => 7

mutual

/-- What follows the header. -/
def body : Tree → List UInt8
  | point n => n.order.coord n.content
  | lineString n => n.order.coords n.content
  | polygon n => n.order.rings n.content
  | multiPoint n => n.order.counted (Node.bytes 1 Endian.coord) n.content
  | multiLineString n => n.order.counted (Node.bytes 2 Endian.coords) n.content
  | multiPolygon n => n.order.counted (Node.bytes 3 Endian.rings) n.content
  | collection order ts => order.bytes 4 ts.length ++ bodies ts

def bodies : List Tree → List UInt8
  | [] => []
  | t :: ts => t.order.header t.code ++ t.body ++ bodies ts

end

def bytes (t : Tree) : List UInt8 := t.order.header t.code ++ t.body

mutual

/-- The geometry that a tree encodes. Rings are closed as polygons are made. -/
def geometry : Tree → Geometry
  | point n => .point n.content
  | lineString n => .lineString n.content
  | polygon n => .polygon (.ofRings n.content)
  | multiPoint n => .multiPoint (n.content.map Node.content)
  | multiLineString n => .multiLineString (n.content.map Node.content)
  | multiPolygon n => .multiPolygon (n.content.map fun m => .ofRings m.content)
  | collection _ ts => .collection (geometries ts)

def geometries : List Tree → List Geometry
  | [] => []
  | t :: ts => t.geometry :: geometries ts

end

mutual

/-- How many levels of members lie below the root. -/
def levels : Tree → Nat
  | point _ | lineString _ | polygon _ => 0
  | multiPoint n => min 1 n.content.length
  | multiLineString n => min 1 n.content.length
  | multiPolygon n => min 1 n.content.length
  | collection _ ts => levelsBelow ts

def levelsBelow : List Tree → Nat
  | [] => 0
  | t :: ts => max (t.levels + 1) (levelsBelow ts)

end

mutual

/-- Whether every count can state the number of its items. -/
def Fits : Tree → Prop
  | point _ => True
  | lineString n => CountFits n.content
  | polygon n => RingsFit n.content
  | multiPoint n => CountFits n.content
  | multiLineString n => CountFits n.content ∧ ∀ m ∈ n.content, CountFits m.content
  | multiPolygon n => CountFits n.content ∧ ∀ m ∈ n.content, RingsFit m.content
  | collection _ ts => CountFits ts ∧ AllFit ts

def AllFit : List Tree → Prop
  | [] => True
  | t :: ts => t.Fits ∧ AllFit ts

end

mutual

def inOrder (e : Endian) : Tree → Tree
  | point n => point ⟨e, n.content⟩
  | lineString n => lineString ⟨e, n.content⟩
  | polygon n => polygon ⟨e, n.content⟩
  | multiPoint n => multiPoint ⟨e, n.content.map fun m => ⟨e, m.content⟩⟩
  | multiLineString n => multiLineString ⟨e, n.content.map fun m => ⟨e, m.content⟩⟩
  | multiPolygon n => multiPolygon ⟨e, n.content.map fun m => ⟨e, m.content⟩⟩
  | collection _ ts => collection e (allInOrder e ts)

def allInOrder (e : Endian) : List Tree → List Tree
  | [] => []
  | t :: ts => t.inOrder e :: allInOrder e ts

end

theorem bodies_eq_flatMap (ts : List Tree) : bodies ts = ts.flatMap bytes := by
  induction ts with
  | nil => rfl
  | cons t ts ih => rw [bodies, ih, List.flatMap_cons, bytes]

theorem geometries_eq_map (ts : List Tree) : geometries ts = ts.map geometry := by
  induction ts with
  | nil => rfl
  | cons t ts ih => rw [geometries, ih, List.map_cons]

theorem allFit_iff (ts : List Tree) : AllFit ts ↔ ∀ t ∈ ts, t.Fits := by
  induction ts with
  | nil => simp [AllFit]
  | cons t ts ih => rw [AllFit, ih, List.forall_mem_cons]

theorem levelsBelow_le_iff (ts : List Tree) (n : Nat) :
    levelsBelow ts ≤ n ↔ ∀ t ∈ ts, t.levels < n := by
  induction ts with
  | nil => simp [levelsBelow]
  | cons t ts ih =>
    rw [levelsBelow, List.forall_mem_cons, ← ih]
    omega

@[simp] theorem length_allInOrder (e : Endian) (ts : List Tree) :
    (allInOrder e ts).length = ts.length := by
  induction ts with
  | nil => rfl
  | cons t ts ih => rw [allInOrder, List.length_cons, List.length_cons, ih]

mutual

theorem geometry_inOrder (e : Endian) : ∀ t : Tree, (t.inOrder e).geometry = t.geometry
  | point _ | lineString _ | polygon _ => rfl
  | multiPoint n => by simp [inOrder, geometry]
  | multiLineString n => by simp [inOrder, geometry]
  | multiPolygon n => by simp [inOrder, geometry]
  | collection _ ts => by rw [inOrder, geometry, geometry, geometries_allInOrder e ts]

theorem geometries_allInOrder (e : Endian) :
    ∀ ts : List Tree, geometries (allInOrder e ts) = geometries ts
  | [] => rfl
  | t :: ts => by
    rw [allInOrder, geometries, geometries, geometry_inOrder e t, geometries_allInOrder e ts]

end

mutual

theorem levels_inOrder (e : Endian) : ∀ t : Tree, (t.inOrder e).levels = t.levels
  | point _ | lineString _ | polygon _ => rfl
  | multiPoint n => by simp [inOrder, levels]
  | multiLineString n => by simp [inOrder, levels]
  | multiPolygon n => by simp [inOrder, levels]
  | collection _ ts => levelsBelow_allInOrder e ts

theorem levelsBelow_allInOrder (e : Endian) :
    ∀ ts : List Tree, levelsBelow (allInOrder e ts) = levelsBelow ts
  | [] => rfl
  | t :: ts => by
    rw [allInOrder, levelsBelow, levelsBelow, levels_inOrder e t, levelsBelow_allInOrder e ts]

end

mutual

theorem fits_inOrder (e : Endian) : ∀ t : Tree, (t.inOrder e).Fits ↔ t.Fits
  | point _ | lineString _ | polygon _ => Iff.rfl
  | multiPoint n => by simp [inOrder, Fits, CountFits]
  | multiLineString n => by simp [inOrder, Fits, CountFits]
  | multiPolygon n => by simp [inOrder, Fits, CountFits]
  | collection _ ts => by
    rw [inOrder, Fits, Fits, allFit_allInOrder e ts, CountFits, length_allInOrder, CountFits]

theorem allFit_allInOrder (e : Endian) :
    ∀ ts : List Tree, AllFit (allInOrder e ts) ↔ AllFit ts
  | [] => Iff.rfl
  | t :: ts => by rw [allInOrder, AllFit, AllFit, fits_inOrder e t, allFit_allInOrder e ts]

end

end Tree
end LogicalTable.Wkb
