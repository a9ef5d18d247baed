import MultiCaret.Editor.Typing

/-!
# Cursor movement

Every cursor moves by itself: to the left and right through the line ends, up and down within the lines, and to the
first character of its line that is no blank.  A cursor can be added on the line above the topmost or below the lowest
one.
-/

namespace MultiCaret

namespace Editor

/-- One character back, or where it is at the beginning of the text. -/
def leftOf (lines : List Text) (p : Position) : Except EditorFault Position :=
  (placeBefore? lines p).map fun q? => q?.getD p

/-- One character on, or where it is at the end of the text. -/
def rightOf (lines : List Text) (p : Position) : Except EditorFault Position :=
  (lineFor lines p.line).map fun l =>
    if p.column < l.length then ⟨p.line, p.column + 1⟩
    else if p.line < lines.length - 1 then ⟨p.line + 1, 0⟩
    else p

/-- The first character of the line that is no blank. -/
def homeOf (lines : List Text) (p : Position) : Except EditorFault Position :=
  (lineFor lines p.line).map fun l => ⟨p.line, firstNonBlank l⟩

/-- The given number of lines further down, at the same column if the line reaches it. -/
def lineStep (lines : List Text) (k : Int) (p : Position) : Except EditorFault Position :=
  .ok (clampTo lines ⟨p.line + k, p.column⟩)

/-- The lowest cursor. -/
def lowest (e : Editor) : Position :=
  e.selections.foldl (fun p s => p.later s.active) e.cursor

/-- The topmost cursor. -/
def topmost (e : Editor) : Position :=
  e.selections.foldl (fun p s => p.earlier s.active) e.cursor

/-- Adds a cursor at the column of a position on another line, if there is such a line. -/
def addCursorAt (e : Editor) (edge : Position) (line : Int) : Editor :=
  if HasLine e.lines line then
    let e := e.setSelections (e.selections ++ [.caret ⟨line, edge.column⟩])
    { e with status := .cursors e.selections.length }
  else e

/-- Adds a cursor on the line below the lowest one. -/
def addCursorBelow (e : Editor) : Editor :=
  e.addCursorAt e.lowest (e.lowest.line + 1)

/-- Adds a cursor on the line above the topmost one. -/
def addCursorAbove (e : Editor) : Editor :=
  e.addCursorAt e.topmost (e.topmost.line - 1)

/-- Keeps the primary cursor only. -/
def singleCursor (e : Editor) : Editor :=
  e.setSelections (e.selections.take 1)

end Editor

end MultiCaret
