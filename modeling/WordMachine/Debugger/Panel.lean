import WordMachine.Text.Basic

/-!
# Debugger/Panel — coloured characters in boxes

A `Panel` is rows of cells. A box of a given size has a border with a title and rows of content,
which are cut at the border or filled up with blanks (`length_fit`), so that it is exactly as high as
asked for (`length_box`). Boxes are put together with `++` and `beside`.
-/

namespace WordMachine

namespace Debugger

inductive Color where
  | unset | red | green | yellow | blue | magenta | cyan | white | gray | darkGray
  deriving DecidableEq, Repr

/-- A character in a colour. -/
structure Cell where
  char : Char
  color : Color := .unset
  deriving DecidableEq, Repr

/-- Cells side by side. -/
abbrev Row := List Cell

/-- Rows one under the other. -/
abbrev Panel := List Row

/-- A text in a colour. -/
def colored (color : Color) (text : String) : Row := text.toList.map fun char => ⟨char, color⟩

/-- A text in no colour. -/
def plain (text : String) : Row := colored .unset text

/-- A row of exactly `width` cells: cut at the end, or filled up with blanks of a colour. -/
def fit (width : Nat) (color : Color) (row : Row) : Row :=
  row.take width ++ List.replicate (width - row.length) ⟨' ', color⟩

theorem length_fit (width : Nat) (color : Color) (row : Row) :
    (fit width color row).length = width := by
  simp [fit]
  omega

/-- What goes into a box: rows, each with the colour of the blanks after it. -/
abbrev Content := List (Row × Color)

/-- Rows with blanks of no colour after them. -/
def Content.ofRows (rows : List Row) : Content := rows.map fun row => (row, .unset)

/-- Exactly `height` rows of exactly `width` cells. -/
def Content.fill (content : Content) (height width : Nat) (color : Color) : Panel :=
  (content.take height).map (fun (row, color) => fit width color row) ++
    List.replicate (height - content.length) (fit width color [])

/-- A row between two border characters, cut to `width` cells. -/
def bordered (width : Nat) (color : Color) (left right : Char) (inner : Row) : Row :=
  (⟨left, color⟩ :: (inner ++ [⟨right, color⟩])).take width

/-- The top border with the title. -/
def topBorder (width : Nat) (color : Color) (title : String) : Row :=
  let line := (colored color title).take (width - 2)
  bordered width color '┌' '┐'
    (line ++ List.replicate (width - 2 - line.length) ⟨'─', color⟩)

def bottomBorder (width : Nat) (color : Color) : Row :=
  bordered width color '└' '┘' (List.replicate (width - 2) ⟨'─', color⟩)

/-- A box of a size. `border` colours the border and the title, `ground` the blanks inside. -/
def box (width height : Nat) (border ground : Color) (title : String) (content : Content) : Panel :=
  let inside := content.fill (height - 2) (width - 2) ground
  let middle := inside.map fun row => bordered width border '│' '│' row
  (topBorder width border title :: (middle ++ [bottomBorder width border])).take height

/-- A box in one colour, with everything in it. -/
def uniformBox (width height : Nat) (color : Color) (title : String) (lines : List String) :
    Panel :=
  box width height color color title (lines.map fun line => (colored color line, color))

/-- Two panels side by side. -/
def beside (left right : Panel) : Panel := List.zipWith (· ++ ·) left right

theorem length_fill (content : Content) (height width : Nat) (color : Color) :
    (content.fill height width color).length = height := by
  simp [Content.fill]
  omega

/-- **A box is as high as asked for**, if it has room for a border. -/
theorem length_box {width height : Nat} (border ground : Color) (title : String)
    (content : Content) (h : 2 ≤ height) :
    (box width height border ground title content).length = height := by
  simp [box, length_fill]
  omega

end Debugger

end WordMachine
