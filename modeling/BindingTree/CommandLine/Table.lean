/-! Tables of text with a rounded border: one header row, cells padded by a blank on each side. -/

namespace BindingTree.CommandLine

/-- A row of the table as its cells. -/
abbrev Row := List String

def widths (rows : List Row) (columns : Nat) : List Nat :=
  (List.range columns).map fun i =>
    (rows.map fun r => (r.getD i "").length).foldl max 0

def padded (width : Nat) (cell : String) : String :=
  " " ++ cell ++ String.ofList (List.replicate (width - cell.length) ' ') ++ " "

/-- A line of the border with its ends and crossings. -/
def borderLine (left crossing right : String) (ws : List Nat) : String :=
  left ++ crossing.intercalate (ws.map fun w => String.ofList (List.replicate (w + 2) '─')) ++ right

def rowLine (ws : List Nat) (r : Row) : String :=
  "│" ++ "│".intercalate (List.zipWith padded ws r) ++ "│"

/-- The lines of a table. -/
def tableLines (header : Row) (rows : List Row) : List String :=
  let ws := widths (header :: rows) header.length
  [borderLine "╭" "┬" "╮" ws, rowLine ws header, borderLine "├" "┼" "┤" ws]
    ++ rows.map (rowLine ws) ++ [borderLine "╰" "┴" "╯" ws]

end BindingTree.CommandLine
