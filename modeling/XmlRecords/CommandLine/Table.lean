/-!
Tables between drawn lines, under a centred title. The lines around the headings are heavy.
-/

set_option autoImplicit false
set_option relaxedAutoImplicit false

namespace XmlRecords

/-- A column of a table with its cells from top to bottom. -/
structure Column where
  heading : String
  alignsRight : Bool
  cells : List String
  deriving DecidableEq, Repr

namespace Column

def width (c : Column) : Nat := ((c.heading :: c.cells).map String.length).foldl max 0

def blanks (count : Nat) : String := String.ofList (List.replicate count ' ')

/-- A cell filled up to the width of the column, with a blank on either side. -/
def fill (c : Column) (cell : String) : String :=
  let rest := blanks (c.width - cell.length)
  " " ++ (if c.alignsRight then rest ++ cell else cell ++ rest) ++ " "

end Column

def tableRow (left divider right : String) (cells : List String) : String :=
  left ++ divider.intercalate cells ++ right ++ "\n"

def tableRule (stroke : Char) (left divider right : String) (columns : List Column) : String :=
  tableRow left divider right
    (columns.map fun c => String.ofList (List.replicate (c.width + 2) stroke))

def tableRows (columns : List Column) : List (List String) :=
  (List.range ((columns.head?.map (·.cells.length)).getD 0)).map fun n =>
    columns.map fun c => c.fill ((c.cells[n]?).getD "")

def table (title : String) (columns : List Column) : String :=
  let width := columns.foldl (fun total c => total + c.width + 3) 1
  let left := (width - title.length) / 2
  Column.blanks left ++ title ++ Column.blanks (width - title.length - left) ++ "\n" ++
    tableRule '━' "┏" "┳" "┓" columns ++
    tableRow "┃" "┃" "┃" (columns.map fun c => c.fill c.heading) ++
    tableRule '━' "┡" "╇" "┩" columns ++
    String.join ((tableRows columns).map (tableRow "│" "│" "│")) ++
    tableRule '─' "└" "┴" "┘" columns

end XmlRecords
