import LogicalTable.Error
import LogicalTable.Geometry.Wkt
import LogicalTable.Value.Rich

/-! Reading well-known text. Keywords ignore case, and a type may carry the letters of further
ordinates, which are read and dropped. What follows the geometry is not looked at. -/
namespace LogicalTable.Wkt

inductive Token where
  | comma
  | opening
  | closing
  | number (x : Binary64)
  | word (w : List Char)
  | malformed
  deriving DecidableEq, Repr

def isSpace (c : Char) : Bool := c == ' ' || c == '\t' || c == '\n' || c == '\r'

def mark? (c : Char) : Option Token :=
  if c = ',' then some .comma
  else if c = '(' then some .opening
  else if c = ')' then some .closing
  else none

def startsNumber (c : Char) : Bool := Text.isDigit c || c == '.' || c == '-' || c == '+'

/-- A run of characters between blanks and marks as a token: a number if it starts like one, with a
plus sign in front dropped, else a word in lower case. -/
def runToken : List Char → List Token
  | [] => []
  | c :: cs =>
    if startsNumber c then
      match Binary64.ofChars? (if c = '+' then cs else c :: cs) with
      | some x => [.number x]
      | none => [.malformed]
    else [.word (Binary64.lowerCase (c :: cs))]

/-- The tokens of a text behind the run that is being read. The null character ends the text. -/
def tokens : (run : List Char) → List Char → List Token
  | run, [] => runToken run
  | run, c :: cs =>
    if c = '\x00' then runToken run
    else if isSpace c then runToken run ++ tokens [] cs
    else
      match mark? c with
      | some t => runToken run ++ t :: tokens [] cs
      | none => tokens (run ++ [c]) cs

abbrev Reader (α : Type) := List Token → Option (α × List Token)

def emptyWord : List Char := ['e', 'm', 'p', 't', 'y']

def enclosed (item : Reader α) (empty : α) : Reader α
  | .opening :: ts => do
    match ← item ts with
    | (a, .closing :: rest) => some (a, rest)
    | _ => none
  | .word w :: rest => if w = emptyWord then some (empty, rest) else none
  | _ => none

def separated (item : Reader α) : (more : Nat) → Reader (List α)
  | 0, ts => do
    let (a, rest) ← item ts
    return ([a], rest)
  | more + 1, ts => do
    let (a, rest) ← item ts
    match rest with
    | .comma :: rest =>
      let (as, rest) ← separated item more rest
      return (a :: as, rest)
    | rest => return ([a], rest)

/-- One or more items apart by commas. Each comma is a token, which bounds their number. -/
def commaSeparated (item : Reader α) : Reader (List α) := fun ts => separated item ts.length ts

def numbers : (n : Nat) → Reader (List Binary64)
  | 0, ts => some ([], ts)
  | n + 1, .number x :: ts => do
    let (xs, rest) ← numbers n ts
    return (x :: xs, rest)
  | _ + 1, _ => none

/-- Two ordinates and so many that are dropped. -/
def coord (extra : Nat) : Reader Coord := fun ts => do
  match ← numbers (2 + extra) ts with
  | (x :: y :: _, rest) => some (⟨x, y⟩, rest)
  | _ => none

def coords (extra : Nat) : Reader (List Coord) := commaSeparated (coord extra)

def coordLists (extra : Nat) : Reader (List (List Coord)) :=
  commaSeparated (enclosed (coords extra) [])

def looseCoord (extra : Nat) : Reader Coord
  | .opening :: ts => do
    match ← coord extra ts with
    | (c, .closing :: rest) => some (c, rest)
    | _ => none
  | ts => coord extra ts

inductive Kind where
  | point
  | lineString
  | polygon
  | multiPoint
  | multiLineString
  | multiPolygon
  | collection
  deriving DecidableEq, Repr

def keywords : List (String × Kind) := [
  ("point", .point), ("linestring", .lineString), ("linearring", .lineString),
  ("polygon", .polygon), ("multipoint", .multiPoint), ("multilinestring", .multiLineString),
  ("multipolygon", .multiPolygon), ("geometrycollection", .collection)]

def extraOf? (letters : List Char) : Option Nat :=
  if letters = ['z'] ∨ letters = ['m'] then some 1
  else if letters = ['z', 'm'] then some 2
  else none

/-- The kind that a word names, and what stands glued to the keyword. -/
def kind? (w : List Char) : Option (Kind × List Char) :=
  keywords.findSome? fun (keyword, kind) =>
    let rest := w.drop keyword.length
    if keyword.toList.isPrefixOf w && (rest = [] || (extraOf? rest).isSome) then some (kind, rest)
    else none

def extraWord : Reader Nat
  | .word w :: ts =>
    match extraOf? w with
    | some n => some (n, ts)
    | none => if w = emptyWord then some (0, .word w :: ts) else none
  | ts => some (0, ts)

def body (inner : Reader Geometry) (extra : Nat) : Kind → Reader Geometry
  | .point, ts => do
    match ← enclosed (fun ts => (coord extra ts).map fun (c, rest) => (some c, rest)) none ts with
    | (some c, rest) => some (.point c, rest)
    | (none, rest) => some (.multiPoint [], rest)
  | .lineString, ts => do
    let (cs, rest) ← enclosed (coords extra) [] ts
    return (.lineString cs, rest)
  | .polygon, ts => do
    let (ls, rest) ← enclosed (coordLists extra) [] ts
    return (.polygon (.ofRings ls), rest)
  | .multiPoint, ts => do
    let (cs, rest) ← enclosed (commaSeparated (looseCoord extra)) [] ts
    return (.multiPoint cs, rest)
  | .multiLineString, ts => do
    let (ls, rest) ← enclosed (coordLists extra) [] ts
    return (.multiLineString ls, rest)
  | .multiPolygon, ts => do
    let (ps, rest) ← enclosed (commaSeparated (enclosed (coordLists extra) [])) [] ts
    return (.multiPolygon (ps.map .ofRings), rest)
  | .collection, ts => do
    let (gs, rest) ← enclosed (commaSeparated inner) [] ts
    return (.collection gs, rest)

def geometry : (levels : Nat) → Reader Geometry
  | levels + 1, .word w :: ts => do
    let (kind, glued) ← kind? w
    let (extra, ts) ← match extraOf? glued with
      | some n => some (n, ts)
      | none => extraWord ts
    body (geometry levels) extra kind ts
  | _, _ => none

/-- The geometry at the start of a text. Each level takes a token, which bounds their number. -/
def read? (text : String) : Option Geometry :=
  let ts := tokens [] text.toList
  (geometry ts.length ts).map Prod.fst

end LogicalTable.Wkt

namespace LogicalTable.GeoValue

def ofWkt (text crs : String) : Except LayoutError GeoValue :=
  match Wkt.read? text with
  | some g => .ok ⟨g, crs⟩
  | none => .error (.invalidWkt text)

def text (g : GeoValue) : String :=
  if g.crs.isEmpty then Wkt.write g.geometry else Wkt.write g.geometry ++ " (" ++ g.crs ++ ")"

end LogicalTable.GeoValue
