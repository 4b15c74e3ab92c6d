import NovelScript.Text.Width

/-! # Tables

Rows of cells as text. The cells of a column are padded to the width of the widest one, with a
blank on either side. -/

namespace NovelScript.Text

/-- The wider of two widths for each column. -/
def mergeWidths : List Nat → List Nat → List Nat
  | [], others => others
  | widths, [] => widths
  | w :: widths, v :: others => max w v :: mergeWidths widths others

/-- The width of each column. -/
def columnWidths (rows : List (List String)) : List Nat :=
  rows.foldl (fun widths row => mergeWidths widths (row.map columns)) []

/-- A cell of a column of the given width. -/
def cell (width : Nat) (text : String) : String :=
  " " ++ text.pushn ' ' (width - columns text) ++ " "

/-- The cells of a row; cells that the row lacks are empty. -/
def rowCells : (widths : List Nat) → (row : List String) → List String
  | [], _ => []
  | w :: widths, [] => cell w "" :: rowCells widths []
  | w :: widths, text :: row => cell w text :: rowCells widths row

/-- A text without the blanks at its end. -/
def trimBlanks (text : String) : String :=
  String.ofList (text.toList.reverse.dropWhile (· == ' ')).reverse

/-- A table without rules: cells with a blank between them, each line indented by two blanks. -/
def plainTable (rows : List (List String)) : String :=
  let widths := columnWidths rows
  String.join (rows.map fun row =>
    "  " ++ trimBlanks (" ".intercalate (rowCells widths row)) ++ "\n")

/-- A table with bars between the cells and a rule below the first row. -/
def barTable (rows : List (List String)) : String :=
  let widths := columnWidths rows
  let line (cells : List String) : String := "|" ++ "|".intercalate cells ++ "|\n"
  let rule := line (widths.map fun w => "".pushn '-' (w + 2))
  match rows with
  | [] => ""
  | head :: rest =>
    line (rowCells widths head) ++ rule ++
      String.join (rest.map fun row => line (rowCells widths row))

end NovelScript.Text
