import Premise.Text.Blank
import Premise.Text.Width

/-!
Tables drawn with box characters: a header, and rows whose cells may have several lines. Columns are
as wide as their widest line, with a space on either side.
-/

namespace Premise.Report

/-- A row before it is drawn: the lines of each cell. -/
abbrev Row := List (List String)

def cellLines (text : String) : List String :=
  (Text.pieces (· == '\n') text.toList).map String.ofList

def rowOf (cells : List String) : Row := cells.map cellLines

def cellWidth (lines : List String) : Nat := (lines.map Text.columns).foldl max 0

/-- The widths of the columns, each the greatest over all rows. -/
def columnWidths : List Row → List Nat
  | [] => []
  | [row] => row.map cellWidth
  | row :: rows => List.zipWith max (row.map cellWidth) (columnWidths rows)

def spaces (n : Nat) : String := String.ofList (List.replicate n ' ')

/-- A line of a cell, filled up to the width of its column. -/
def padded (width : Nat) (line : String) : String :=
  " " ++ line ++ spaces (width - Text.columns line) ++ " "

/-- The n-th line of a row. -/
def rowLine (widths : List Nat) (row : Row) (n : Nat) : String :=
  "│" ++ Text.joined "┆" (List.zipWith (fun w cell => padded w (cell[n]?.getD "")) widths row) ++ "│"

/-- All lines of a row; it is as high as its highest cell. -/
def rowLines (widths : List Nat) (row : Row) : List String :=
  (List.range ((row.map List.length).foldl max 0)).map (rowLine widths row)

/-- A horizontal line: its left end, its fill, its crossings and its right end. -/
def rule (left : String) (fill : Char) (crossing right : String) (widths : List Nat) : String :=
  left ++ Text.joined crossing (widths.map fun w => String.ofList (List.replicate (w + 2) fill)) ++
    right

def ruled (widths : List Nat) : List Row → List String
  | [] => []
  | [row] => rowLines widths row
  | row :: rows => rowLines widths row ++ rule "├" '╌' "┼" "┤" widths :: ruled widths rows

def table (header : List String) (rows : List (List String)) : String :=
  let head := rowOf header
  let body := rows.map rowOf
  let widths := columnWidths (head :: body)
  let middle :=
    if body.isEmpty then [] else rule "╞" '═' "╪" "╡" widths :: ruled widths body
  Text.joined "\n"
    ((rule "┌" '─' "┬" "┐" widths :: rowLines widths head) ++ middle ++
      [rule "└" '─' "┴" "┘" widths])

end Premise.Report
