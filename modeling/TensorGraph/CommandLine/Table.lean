/-!
# Tables in frames

A table is written with a frame: a double rule below the header, dashed rules between the rows, and
a blank on each side of every cell. All cells of a column are as wide as the widest one. Cells are
single lines of ASCII text.
-/

namespace TensorGraph.CommandLine

/-- A header and rows with as many cells. -/
structure Table where
  header : List String
  rows : List (List String)

namespace Table

/-- The widths of the columns. -/
def widths (t : Table) : List Nat :=
  t.rows.foldl (fun widths row => widths.zipWith (fun w cell => max w cell.length) row)
    (t.header.map String.length)

/-- A rule: its left end, the line, the crossings and the right end. -/
def rule (widths : List Nat) (left line cross right : Char) : String :=
  left.toString ++
    cross.toString.intercalate (widths.map fun w => String.ofList (List.replicate (w + 2) line)) ++
    right.toString

/-- A line of cells. -/
def cells (widths : List Nat) (row : List String) : String :=
  "│" ++ "┆".intercalate (widths.zipWith (fun w cell =>
    " " ++ cell ++ String.ofList (List.replicate (w + 1 - cell.length) ' ')) row) ++ "│"

/-- The lines of a table. -/
def lines (t : Table) : List String :=
  let w := t.widths
  [rule w '┌' '─' '┬' '┐', cells w t.header, rule w '╞' '═' '╪' '╡'] ++
    (t.rows.map (cells w)).intersperse (rule w '├' '╌' '┼' '┤') ++
    [rule w '└' '─' '┴' '┘']

/-- The text of a table, without a line break at its end. -/
def text (t : Table) : String :=
  "\n".intercalate t.lines

end Table

end TensorGraph.CommandLine
