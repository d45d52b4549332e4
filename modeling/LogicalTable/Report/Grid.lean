import LogicalTable.Text.Width

/-! Grids: rows of cells drawn with rules around them. A cell may have several lines. -/
namespace LogicalTable

structure Grid where
  header : List String
  rows : List (List String)

namespace Grid

/-- The lines of a text; a text without line ends is one line. -/
def splitLines : List Char → List (List Char)
  | [] => [[]]
  | c :: cs =>
    if c = '\n' then [] :: splitLines cs
    else
      match splitLines cs with
      | [] => [[c]]
      | line :: rest => (c :: line) :: rest

def lines (cell : String) : List String := (splitLines cell.toList).map String.ofList

def cellWidth (cell : String) : Nat := ((lines cell).map Text.width).foldl max 0

def widths (g : Grid) : List Nat :=
  g.rows.foldl (fun ws row => ws.zipWith max (row.map cellWidth)) (g.header.map cellWidth)

def rule (left fill cross right : String) (ws : List Nat) : String :=
  left ++ cross.intercalate (ws.map fun w => String.join (List.replicate (w + 2) fill)) ++ right

def padded (w : Nat) (s : String) : String :=
  s ++ String.ofList (List.replicate (w - Text.width s) ' ')

/-- One line of a row, blank in the cells that have fewer lines. -/
def rowLine (ws : List Nat) (cells : List (List String)) (i : Nat) : String :=
  "| " ++ " | ".intercalate (ws.zipWith (fun w ls => padded w (ls[i]?.getD "")) cells) ++ " |"

def rowLines (ws : List Nat) (row : List String) : List String :=
  let cells := row.map lines
  let height := (cells.map List.length).foldl max 0
  (List.range height).map (rowLine ws cells)

def bodyLines (ws : List Nat) : List (List String) → List String
  | [] => []
  | [row] => rowLines ws row
  | row :: rows => rowLines ws row ++ rule "|" "-" "+" "|" ws :: bodyLines ws rows

def text (g : Grid) : String :=
  let ws := g.widths
  let border := rule "+" "-" "+" "+" ws
  "\n".intercalate (border :: rowLines ws g.header ++
    rule "+" "=" "=" "+" ws :: bodyLines ws g.rows ++ [border])

end Grid
end LogicalTable
