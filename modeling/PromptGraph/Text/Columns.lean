/-
Tables in columns: every cell but the last of a row is filled up to the width of its column, and two
blanks stand between columns.
-/

namespace PromptGraph.Text

/-- Blanks between columns. -/
def gutter : Nat := 2

def cellWidth (cell : String) : Nat := cell.length + gutter

/-- The widths of the columns that hold every cell but the last of each row. -/
def columnWidths (rows : List (List String)) : List Nat :=
  rows.foldl (fun widths row => widen widths row.dropLast) []
where
  widen : List Nat → List String → List Nat
    | ws, [] => ws
    | [], cell :: row => cellWidth cell :: widen [] row
    | w :: ws, cell :: row => max w (cellWidth cell) :: widen ws row

def fill (width : Nat) (cell : String) : String :=
  cell ++ String.ofList (List.replicate (width - cell.length) ' ')

/-- One row as a line. -/
def rowLine : List Nat → List String → String
  | _, [] => "\n"
  | _, [last] => last ++ "\n"
  | [], cell :: row => cell ++ rowLine [] row
  | w :: ws, cell :: row => fill w cell ++ rowLine ws row

def columns (rows : List (List String)) : String :=
  String.join (rows.map (rowLine (columnWidths rows)))

end PromptGraph.Text
