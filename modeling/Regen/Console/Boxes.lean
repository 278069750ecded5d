import Regen.Console.Lines

/-! # Boxes

    Panels and tables for the console, drawn with lines.  A column is as wide as its widest line
    in the columns of the console, where some characters take two. -/

namespace Regen.Console

open Text

/-! ## Filling lines up -/

/-- Fill a line up with spaces behind it. -/
def padRight (n : Nat) (cs : List Char) : List Char := cs ++ blanks (n - width cs)

/-- Fill a line up with spaces in front of it. -/
def padLeft (n : Nat) (cs : List Char) : List Char := blanks (n - width cs) ++ cs

/-- Fill a line up on both sides, with the odd column on the right. -/
def padAround (fill : Char) (n : Nat) (cs : List Char) : List Char :=
  let left := (n - width cs) / 2
  List.replicate left fill ++ cs ++ List.replicate (n - width cs - left) fill

/-! ## Panels -/

/-- A panel around lines that are at most `inner` columns wide. -/
def panelAround (title : String) (inner : Nat) (body : List (List Char)) : List (List Char) :=
  let title := (" " ++ title ++ " ").toList
  let inside := max (inner + 2) (title.length + 2)
  let top := "╭─".toList ++ padAround '─' (inside - 2) title ++ "─╮".toList
  let bottom := '╰' :: List.replicate inside '─' ++ ['╯']
  top :: body.map (fun line => "│ ".toList ++ padRight (inside - 2) line ++ " │".toList) ++ [bottom]

/-- A panel around plain text. -/
def panel (title : String) (body : List Char) : List (List Char) :=
  let inner := max (measure body) (title.length + 2)
  panelAround title inner ((printedLines inner .fold body).map (shorten inner .fold))

/-! ## Tables -/

/-- On which side the lines of a column are aligned. -/
inductive Side where
  | left
  | right
  deriving DecidableEq, Repr

/-- A column: its heading, its side and the plain texts of its cells. -/
structure Column where
  heading : String
  side : Side
  cells : List (List Char)
  deriving Repr

/-- The place of a column in each row, without the space on each side. -/
structure Slot where
  width : Nat
  side : Side
  deriving Repr

/-- The place of a column: its widest line fits. -/
def Column.slot (c : Column) : Slot :=
  ⟨((c.heading.toList :: c.cells).map measure).foldl max 0, c.side⟩

namespace Slot

/-- The printed lines of a cell. -/
def lines (s : Slot) (cell : List Char) : List (List Char) := printedLines s.width .ellipsis cell

/-- A line of a cell with the space on each side.  On the right, blanks at its end do not
    count. -/
def fill (s : Slot) (cs : List Char) : List Char :=
  ' ' :: (match s.side with
    | .left => padRight s.width (shorten s.width .ellipsis cs)
    | .right =>
      padLeft s.width (shorten s.width .ellipsis (cs.reverse.dropWhile isBlank).reverse)) ++ [' ']

end Slot

/-- The printed lines of a row of cells: cells with fewer lines are filled up. -/
def rowLines (slots : List Slot) (cells : List (List Char)) : List (List (List Char)) :=
  let texts := (slots.zip cells).map fun (s, cell) => (s, s.lines cell)
  let height := (texts.map (·.2.length)).foldl max 1
  (List.range height).map fun i => texts.map fun (s, ls) => s.fill ((ls[i]?).getD [])

/-- Join pieces of a line with a separator and put ends around them. -/
def frame (left separator right : Char) (pieces : List (List Char)) : List Char :=
  left :: (List.intercalate [separator] pieces) ++ [right]

/-- A horizontal line of a table. -/
def rule (slots : List Slot) (left fill separator right : Char) : List Char :=
  frame left separator right (slots.map fun s => List.replicate (s.width + 2) fill)

/-- The rows of a table's cells, from the cells of its columns. -/
def rowsOf (columns : List Column) : List (List (List Char)) :=
  let count := (columns.map (·.cells.length)).foldl max 0
  (List.range count).map fun i => columns.map fun c => (c.cells[i]?).getD []

/-- A table with headings, and with a title above it if one is given. -/
def table (title : Option String) (columns : List Column) : List (List Char) :=
  let slots := columns.map Column.slot
  let total := (slots.map fun s => s.width + 3).foldr (· + ·) 1
  let titleLines := match title with
    | some t => [padAround ' ' total t.toList]
    | none => []
  let heading := (rowLines slots (columns.map (·.heading.toList))).map (frame '┃' '┃' '┃')
  let body := (rowsOf columns).flatMap fun cells =>
    (rowLines slots cells).map (frame '│' '│' '│')
  titleLines ++ [rule slots '┏' '━' '┳' '┓'] ++ heading ++ [rule slots '┡' '━' '╇' '┩'] ++
    body ++ [rule slots '└' '─' '┴' '┘']

/-- The width of rows of cells without lines around them. -/
def plainWidth (columns : List Column) : Nat :=
  (columns.map fun c => c.slot.width + 2).foldr (· + ·) 0

/-- Rows of cells without lines around them. -/
def plainTable (columns : List Column) : List (List Char) :=
  let slots := columns.map Column.slot
  (rowsOf columns).flatMap fun cells => (rowLines slots cells).map List.flatten

end Regen.Console
