import Regen.Text.Blank
import Regen.Text.Lines
import Regen.Text.Width

/-! # Lines on the console

    How plain text fills the columns that it is given.  Tabs are filled up with spaces.  A line
    that is too wide is cut between words, and a word that is too wide for a line of its own is
    folded or shortened.  Cutting a line loses nothing of it: `flatten_cut`. -/

namespace Regen.Console

open Text

def blanks (n : Nat) : List Char := List.replicate n ' '

/-- The greatest width of the lines of plain text. -/
def measure (cs : List Char) : Nat := ((lines cs).map width).foldl max 0

/-! ## Tabs -/

/-- A piece of a line with the tab behind it: the tab becomes a space, and further spaces fill
    the piece up to a multiple of eight columns. -/
def tabbed (cs : List Char) : List Char :=
  let cs := cs ++ [' ']
  cs ++ blanks ((8 - width cs % 8) % 8)

/-- Replace the tabs of a line by spaces. -/
def expandTabs (cs : List Char) : List Char :=
  let pieces := splitAt (· == '\t') cs
  pieces.dropLast.flatMap tabbed ++ pieces.getLast?.getD []

/-! ## Cutting lines -/

/-- The words of a line, each with the blanks behind it and the first one with those in front.
    `fuel` bounds their number. -/
def wordsFrom : Nat → List Char → List (List Char)
  | _, [] => []
  | 0, cs => [cs]
  | fuel + 1, cs =>
    let rest := ((cs.dropWhile isBlank).dropWhile (!isBlank ·)).dropWhile isBlank
    cs.take (cs.length - rest.length) :: wordsFrom fuel rest

/-- The words of a line. -/
def words (cs : List Char) : List (List Char) := wordsFrom cs.length cs

/-- Pieces of a word that each fit into a number of columns.  `piece` is the present one, and
    `column` says how wide it is. -/
def chunksFrom (limit : Nat) (piece : List Char) (column : Nat) : List Cluster → List (List Char)
  | [] => [piece]
  | x :: xs =>
    if limit < column + x.width then piece :: chunksFrom limit x.chars x.width xs
    else chunksFrom limit (piece ++ x.chars) (column + x.width) xs

/-- Pieces of a word that each fit into a number of columns. -/
def chunks (limit : Nat) (word : List Char) : List (List Char) :=
  chunksFrom limit [] 0 (clusters word)

/-- A line that is being filled, and the full ones before it, the latest first. -/
structure Filling where
  full : List (List Char)
  line : List Char
  column : Nat

namespace Filling

def empty : Filling := ⟨[], [], 0⟩

/-- Begin a new line with some text, unless nothing stands on the present one. -/
def onNewLine (f : Filling) (cs : List Char) : Filling :=
  ⟨if f.line.isEmpty then f.full else f.line :: f.full, cs, width cs⟩

/-- Place a word.  The blanks behind it need no room. -/
def place (limit : Nat) (folds : Bool) (f : Filling) (word : List Char) : Filling :=
  let needed := width (word.reverse.dropWhile isBlank).reverse
  if f.column + needed ≤ limit then
    { f with line := f.line ++ word, column := f.column + width word }
  else if folds && limit < needed then (chunks limit word).foldl onNewLine f
  else f.onNewLine word

/-- The lines in order. -/
def lines (f : Filling) : List (List Char) := (f.line :: f.full).reverse

end Filling

/-- Cut a line where it would get wider than `limit` columns. -/
def cut (limit : Nat) (folds : Bool) (cs : List Char) : List (List Char) :=
  ((words cs).foldl (Filling.place limit folds) .empty).lines

/-! ## Fitting lines -/

/-- What becomes of a word that is too wide for a line. -/
inductive Overflow where
  /-- It is folded. -/
  | fold
  /-- It is shortened, and an ellipsis stands for the rest. -/
  | ellipsis
  deriving DecidableEq, Repr

/-- Remove blanks from the end of a line with more than `limit` characters, as many as it has too
    many. -/
def cropBlanks (limit : Nat) (cs : List Char) : List Char :=
  let found := (cs.reverse.takeWhile isBlank).length
  cs.take (cs.length - min found (cs.length - limit))

/-- Shorten a line that is wider than `limit` columns. -/
def shorten (limit : Nat) (overflow : Overflow) (cs : List Char) : List Char :=
  if width cs ≤ limit then cs
  else match overflow with
    | .fold => takeColumns limit (clusters cs)
    | .ellipsis => takeColumns (limit - 1) (clusters cs) ++ ['…']

/-- The lines of plain text as they are printed in `limit` columns. -/
def printedLines (limit : Nat) (overflow : Overflow) (cs : List Char) : List (List Char) :=
  (splitAt (· == '\n') cs).flatMap fun line =>
    (cut limit (overflow == .fold) (expandTabs line)).map (cropBlanks limit)

/-! ## Nothing is lost -/

theorem flatten_wordsFrom (fuel : Nat) (cs : List Char) : (wordsFrom fuel cs).flatten = cs := by
  fun_induction wordsFrom fuel cs with
  | case1 => rfl
  | case2 => simp
  | case3 fuel cs _ rest ih =>
    have hs : rest <:+ cs :=
      ((List.dropWhile_suffix _).trans (List.dropWhile_suffix _)).trans (List.dropWhile_suffix _)
    clear_value rest
    obtain ⟨front, rfl⟩ := hs
    simp [ih]

theorem flatten_chunksFrom (limit : Nat) (piece : List Char) (column : Nat) (xs : List Cluster) :
    (chunksFrom limit piece column xs).flatten = piece ++ xs.flatMap Cluster.chars := by
  fun_induction chunksFrom limit piece column xs with
  | case1 => simp
  | case2 _ _ _ _ _ ih => simp [ih]
  | case3 _ _ _ _ _ ih => simp [ih]

namespace Filling

theorem flatten_onNewLine (f : Filling) (cs : List Char) :
    (f.onNewLine cs).lines.flatten = f.lines.flatten ++ cs := by
  unfold onNewLine lines
  cases f.line <;> simp

theorem flatten_foldl {step : Filling → List Char → Filling}
    (h : ∀ f cs, (step f cs).lines.flatten = f.lines.flatten ++ cs) (pieces : List (List Char))
    (f : Filling) :
    (pieces.foldl step f).lines.flatten = f.lines.flatten ++ pieces.flatten := by
  induction pieces generalizing f with
  | nil => simp
  | cons cs rest ih => simp [ih, h]

theorem flatten_place (limit : Nat) (folds : Bool) (f : Filling) (word : List Char) :
    (place limit folds f word).lines.flatten = f.lines.flatten ++ word := by
  unfold place
  dsimp only
  split
  · simp [lines]
  · split
    · rw [flatten_foldl flatten_onNewLine, chunks, flatten_chunksFrom, flatMap_clusters]
      rfl
    · exact flatten_onNewLine f word

end Filling

/-- The pieces of a line make up the line. -/
theorem flatten_cut (limit : Nat) (folds : Bool) (cs : List Char) :
    (cut limit folds cs).flatten = cs := by
  rw [cut, Filling.flatten_foldl (Filling.flatten_place limit folds), words, flatten_wordsFrom]
  rfl

end Regen.Console
