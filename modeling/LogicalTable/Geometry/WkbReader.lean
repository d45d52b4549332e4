import LogicalTable.Geometry.Wkb

/-! Reading well-known binary. Each geometry states its own byte order. Counts are checked against
the bytes left before any item is read, so that no count can ask for more than the data holds. -/
namespace LogicalTable.Wkb

inductive WkbError where
  | truncated (position : Nat)
  | byteOrder (mark : UInt8)
  | geometryType (code : Nat)
  | tooDeep
  | trailingBytes (count : Nat)
  | memberType (expected : String) (got : Nat)
  deriving DecidableEq, Repr

def WkbError.message : WkbError → String
  | .truncated position => "WKB truncated at byte " ++ Nat.repr position
  | .byteOrder mark => "invalid WKB byte order " ++ Nat.repr mark.toNat
  | .geometryType code => "unsupported WKB geometry type " ++ Nat.repr code
  | .tooDeep => "WKB collections nested too deeply"
  | .trailingBytes count => Nat.repr count ++ " trailing bytes after WKB geometry"
  | .memberType expected got =>
    "expected WKB " ++ expected ++ " inside a multi geometry, got type " ++ Nat.repr got

/-- Members may lie this many levels below the root. -/
def maxLevels : Nat := 64

/-- Bytes a coordinate takes, and the fewest a geometry takes. -/
def coordSize : Nat := 16

def minGeometrySize : Nat := 9

abbrev Reader (α : Type) := List UInt8 → Except WkbError (α × List UInt8)

inductive Endian where
  | little
  | big
  deriving DecidableEq, Repr

def littleValue : List UInt8 → Nat
  | [] => 0
  | b :: bs => b.toNat + 256 * littleValue bs

def Endian.value : Endian → List UInt8 → Nat
  | .little, bs => littleValue bs
  | .big, bs => littleValue bs.reverse

def split? : (n : Nat) → List UInt8 → Option (List UInt8 × List UInt8)
  | 0, bs => some ([], bs)
  | _ + 1, [] => none
  | n + 1, b :: bs => (split? n bs).map fun (front, rest) => (b :: front, rest)

variable (size : Nat)

/-- Takes bytes of data that held `size` of them at first. -/
def take (n : Nat) : Reader (List UInt8) := fun bs =>
  match split? n bs with
  | some r => .ok r
  | none => .error (.truncated (size - bs.length))

def word (order : Endian) : Reader Nat := fun bs => do
  let (front, rest) ← take size 4 bs
  return (order.value front, rest)

def double (order : Endian) : Reader Binary64 := fun bs => do
  let (front, rest) ← take size 8 bs
  return (⟨UInt64.ofNat (order.value front)⟩, rest)

/-- A count of items that each take at least `itemSize` bytes. -/
def count (order : Endian) (itemSize : Nat) : Reader Nat := fun bs => do
  let (n, rest) ← word size order bs
  if n * itemSize > rest.length then .error (.truncated size) else return (n, rest)

def replicated (item : Reader α) : (n : Nat) → Reader (List α)
  | 0, bs => .ok ([], bs)
  | n + 1, bs => do
    let (a, rest) ← item bs
    let (as, rest) ← replicated item n rest
    return (a :: as, rest)

def coord (order : Endian) : Reader Coord := fun bs => do
  let (x, rest) ← double size order bs
  let (y, rest) ← double size order rest
  return (⟨x, y⟩, rest)

def coords (order : Endian) : Reader (List Coord) := fun bs => do
  let (n, rest) ← count size order coordSize bs
  replicated (coord size order) n rest

def polygon (order : Endian) : Reader Polygon := fun bs => do
  let (n, rest) ← count size order 4 bs
  let (rings, rest) ← replicated (coords size order) n rest
  return (.ofRings rings, rest)

def header? : Reader (Endian × Nat) := fun bs => do
  let (mark, rest) ← take size 1 bs
  let order ← match mark with
    | [1] => .ok Endian.little
    | [0] => .ok Endian.big
    | bs => .error (.byteOrder (bs.headD 0))
  let (code, rest) ← word size order rest
  return ((order, code), rest)

def member (geometry : Reader Geometry) (expected : String) (pick : Geometry → Option α) :
    Reader α := fun bs => do
  let (g, rest) ← geometry bs
  match pick g with
  | some a => return (a, rest)
  | none => .error (.memberType expected (typeCode g))

def members (order : Endian) (geometry : Reader Geometry) (expected : String)
    (pick : Geometry → Option α) : Reader (List α) := fun bs => do
  let (n, rest) ← count size order minGeometrySize bs
  replicated (member geometry expected pick) n rest

def point? : Geometry → Option Coord
  | .point c => some c
  | _ => none

def lineString? : Geometry → Option (List Coord)
  | .lineString cs => some cs
  | _ => none

def polygon? : Geometry → Option Polygon
  | .polygon p => some p
  | _ => none

def body (inner : Reader Geometry) (order : Endian) (code : Nat) : Reader Geometry := fun bs =>
  match code with
  | 1 => do let (c, rest) ← coord size order bs; return (.point c, rest)
  | 2 => do let (cs, rest) ← coords size order bs; return (.lineString cs, rest)
  | 3 => do let (p, rest) ← polygon size order bs; return (.polygon p, rest)
  | 4 => do let (cs, rest) ← members size order inner "point" point? bs; return (.multiPoint cs, rest)
  | 5 => do
    let (ls, rest) ← members size order inner "line string" lineString? bs
    return (.multiLineString ls, rest)
  | 6 => do
    let (ps, rest) ← members size order inner "polygon" polygon? bs
    return (.multiPolygon ps, rest)
  | 7 => do
    let (gs, rest) ← members size order inner "geometry" some bs
    return (.collection gs, rest)
  | code => .error (.geometryType code)

/-- A geometry of at most so many levels, members counting as one. -/
def geometry : (levels : Nat) → Reader Geometry
  | 0, _ => .error .tooDeep
  | levels + 1, bs => do
    let ((order, code), rest) ← header? size bs
    body size (geometry levels) order code rest

def read (data : List UInt8) : Except WkbError Geometry := do
  let (g, rest) ← geometry data.length (maxLevels + 1) data
  if rest.isEmpty then return g else .error (.trailingBytes rest.length)

end LogicalTable.Wkb
