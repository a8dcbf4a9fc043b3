import PolyCalc.Binary64.Shortest
import PolyCalc.Poly.Basic

/-!
# The Table of a Polynomial

The stored terms of a polynomial, zero terms included, as a table with one row
per term and the highest exponent first. The table is drawn with lines between
all rows and round corners. Cells are aligned to the left with one blank on
either side, and a column is as wide as its widest cell. Above the first row
stands a header; without rows only the header is drawn.

## Main definitions

* `Table`: A table of texts with a header.
* `Table.text`: The drawing of a table.
* `Poly.table`: The table of a polynomial's terms.
-/

namespace PolyCalc

/-- A table of texts. Every row has one cell per column of the header. -/
structure Table where
  header : List String
  rows : List (List String)

namespace Table

/-- The width of each column: that of its widest cell. -/
def widths (t : Table) : List Nat :=
  t.rows.foldl (fun widths row => List.zipWith max widths (row.map String.length))
    (t.header.map String.length)

/-- A horizontal rule: its left end, its crossings and its right end, with one
    stretch of line per column. -/
def rule (left crossing right : String) (widths : List Nat) : String :=
  let stretches := widths.map fun w => String.ofList (List.replicate (w + 2) '─')
  left ++ crossing.intercalate stretches ++ right

/-- A text with blanks added behind it up to a width. -/
def pad (width : Nat) (cell : String) : String :=
  String.ofList (cell.toList.rightpad width ' ')

/-- A row of cells, each padded to the width of its column. -/
def line (widths : List Nat) (cells : List String) : String :=
  let padded := List.zipWith (fun width cell => " " ++ pad width cell ++ " ") widths cells
  "│" ++ "│".intercalate padded ++ "│"

/-- The drawing of a table: its lines, without a break after the last one. -/
def text (t : Table) : String :=
  let widths := t.widths
  let lines := (t.header :: t.rows).map (line widths)
  let top := rule "╭" "┬" "╮" widths
  let between := rule "├" "┼" "┤" widths
  let bottom := rule "╰" "┴" "╯" widths
  "\n".intercalate ([top] ++ lines.intersperse between ++ [bottom])

end Table

namespace Poly

/-- The table of the stored terms, highest exponent first. -/
def table (p : Poly Float) : Table where
  header := ["exponent", "coefficient"]
  rows := p.terms.reverse.map fun t =>
    [toString t.exponent, Binary64.decimalText t.coefficient]

end Poly

end PolyCalc
