/-! How far two texts are apart: the least number of characters to insert, delete, replace or swap with a neighbour,
where swapped characters may be edited between. -/

namespace ScriptTypes.Text

/-- A character of the second text, and the last row so far whose character is the same. -/
structure Column where
  char : Char
  lastRow : Option Nat

/-- A table of distances: row `i` and column `j` are for the first `i` and the first `j` characters. -/
structure Distances where
  rows : Array (Array Nat)
  columns : List Column

/-- A row that is being filled, and the last column so far whose character is that of the row. -/
structure DistanceRow where
  entries : Array Nat
  lastColumn : Option Nat

namespace Distances

/-- The table for an empty first text. -/
def initial (b : List Char) : Distances :=
  ⟨#[Array.range (b.length + 1)], b.map (⟨·, none⟩)⟩

def entry (rows : Array (Array Nat)) (i j : Nat) : Nat :=
  (rows.getD i #[]).getD j 0

/-- The distance where the last characters of both texts are swapped with earlier ones. -/
def swapped (rows : Array (Array Nat)) (i j k l : Nat) : Nat :=
  entry rows (k - 1) (l - 1) + (i - k - 1) + 1 + (j - l - 1)

/-- Append the entry of a column to the row of a character. -/
def extend (rows : Array (Array Nat)) (x : Char) (row : DistanceRow) (column : Column) : DistanceRow :=
  let ⟨entries, lastColumn⟩ := row
  let i := rows.size
  let j := entries.size
  let same := x = column.char
  let above := entry rows (i - 1) j + 1
  let left := entries.getD (j - 1) 0 + 1
  let diagonal := entry rows (i - 1) (j - 1) + if same then 0 else 1
  let least := min (min above left) diagonal
  let least := match column.lastRow, lastColumn with
    | some k, some l => min least (swapped rows i j k l)
    | _, _ => least
  ⟨entries.push least, if same then some j else lastColumn⟩

/-- Append the row of a character of the first text. -/
def addRow (table : Distances) (x : Char) : Distances :=
  let ⟨rows, columns⟩ := table
  let i := rows.size
  let row := columns.foldl (extend rows x) ⟨#[i], none⟩
  ⟨rows.push row.entries, columns.map fun c => if c.char = x then { c with lastRow := some i } else c⟩

end Distances

def distance (a b : List Char) : Nat :=
  let table := a.foldl Distances.addRow (.initial b)
  Distances.entry table.rows a.length b.length

end ScriptTypes.Text
