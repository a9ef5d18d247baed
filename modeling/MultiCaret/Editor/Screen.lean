import MultiCaret.Editor.Basic
import MultiCaret.Text.Cut
import MultiCaret.Text.Numeral
import MultiCaret.Text.UpperCase

/-!
# The screen

What the editor shows: a row for every line in the window, with its number and with the cursors in reverse, filler
rows behind the end of the document, and a status bar.  A screen is made of pieces of text with a style each
(`Screen.ofPieces`).  Characters that would move the cursor of a terminal, other than the newline, are left out.
-/

namespace MultiCaret

/-- How a stretch of the screen looks. -/
inductive Style where
  | lineNumber
  | cursor
  | filler
  | language
  | cursorCount
  | place
deriving DecidableEq

/-- The style in words that a terminal library understands. -/
def Style.name : Style → String
  | .lineNumber => "dim cyan"
  | .cursor => "reverse"
  | .filler => "dim blue"
  | .language => "bold white on dark_blue"
  | .cursorCount => "bold white on dark_orange"
  | .place => "bold"

/-- A piece of text, with a style or plain. -/
structure Piece where
  text : Text
  style : Option Style := none
deriving DecidableEq

/-- A stretch of the screen with its style. -/
structure Span where
  start : Nat
  stop : Nat
  style : Style
deriving DecidableEq

/-- The text on the screen and the stretches of it that have a style. -/
structure Screen where
  plain : Text
  spans : List Span
deriving DecidableEq

/-- A control character that a terminal would not show but act on: bell, backspace, vertical tab, form feed, carriage
return. -/
def isTerminalControl (c : Char) : Bool :=
  c == '\x07' || c == '\x08' || c == '\x0b' || c == '\x0c' || c == '\r'

/-- The text of a piece as it appears. -/
def Piece.shown (p : Piece) : Text :=
  p.text.filter fun c => !isTerminalControl c

/-- The spans of the pieces when the first of them starts at `offset`.  A piece without text has none. -/
def pieceSpans (offset : Nat) : List Piece → List Span
  | [] => []
  | p :: ps =>
    let stop := offset + p.shown.length
    let rest := pieceSpans stop ps
    match p.style with
    | some s => if p.text.isEmpty then rest else ⟨offset, stop, s⟩ :: rest
    | none => rest

/-- The screen that shows the pieces one behind the other. -/
def Screen.ofPieces (ps : List Piece) : Screen :=
  ⟨ps.flatMap Piece.shown, pieceSpans 0 ps⟩

/-- The pieces of a line from a column on, cut at the cursors of the given columns.  A cursor behind the end of the
line is a space. -/
def cutAtCursors (line : Text) (column : Nat) : List Nat → List Piece
  | [] => if column < line.length then [⟨line.drop column, none⟩] else []
  | c :: cs =>
    (if column < c then [⟨(line.take c).drop column, none⟩] else []) ++
      ⟨[line.getD c ' '], some .cursor⟩ :: cutAtCursors line (c + 1) cs

/-- The width of the column of line numbers. -/
def numberWidth (count : Nat) : Nat :=
  max 3 (numeral count).length

namespace Editor

/-- The columns of the cursors on a line, from left to right and without repetitions. -/
def cursorColumns (e : Editor) (line : Int) : List Nat :=
  sortBy (fun a b => decide (a ≤ b))
    ((e.selections.filter fun s => s.active.line == line).map fun s => s.active.column.toNat).eraseDups

/-- The row of a line. -/
def linePieces (e : Editor) (i : Int) (l : Text) : List Piece :=
  ⟨padLeft ' ' (numberWidth e.lines.length) (numeral (i + 1)) ++ [' '], some .lineNumber⟩ ::
    (cutAtCursors l 0 (e.cursorColumns i) ++ [⟨['\n'], none⟩])

/-- The rows of `n` lines from the line `i` on. -/
def lineRows (e : Editor) : Nat → Int → Except EditorFault (List Piece)
  | 0, _ => .ok []
  | n + 1, i =>
    match entryAt? e.lines i with
    | none => .error .noLine
    | some l => (e.lineRows n (i + 1)).map fun rest => e.linePieces i l ++ rest

/-- A row behind the end of the document. -/
def fillerPiece (e : Editor) : Piece :=
  ⟨padLeft ' ' (numberWidth e.lines.length) ['~'] ++ [' ', '\n'], some .filler⟩

/-- The status bar: the language, the number of cursors if there are several, the message, and the place of the primary
cursor at the right end. -/
def statusPieces (e : Editor) (width : Int) : List Piece :=
  let label := ' ' :: upperCase e.document.language ++ [' ']
  let count := e.selections.length
  let multi := if 1 < count then ' ' :: numeral count ++ " cursors ".toList else []
  let place := " Ln ".toList ++ numeral (e.cursor.line + 1) ++ '/' :: numeral e.lines.length ++ ", Col ".toList ++
    numeral (e.cursor.column + 1) ++ [' ']
  let message := e.status.text.toList
  let space := width - label.length - multi.length - place.length - message.length - 2
  [⟨label, some .language⟩, ⟨multi, some .cursorCount⟩, ⟨' ' :: ' ' :: message, none⟩,
    ⟨List.replicate space.toNat ' ', none⟩, ⟨place, some .place⟩]

/-- The screen of a window in which the lines from `scrollTop` on are shown in `rows` rows. -/
def screen (e : Editor) (width : Int) (rows : Nat) : Except EditorFault Screen :=
  let shown := min rows (e.lines.length - e.scrollTop).toNat
  (e.lineRows shown e.scrollTop).map fun pieces =>
    .ofPieces (pieces ++ List.replicate (rows - shown) e.fillerPiece ++ e.statusPieces width)

/-- Draws the editor in a window of the given size, scrolled to the primary cursor.  A window that is too small shows a
note instead and leaves the editor as it is. -/
def draw (e : Editor) (width height : Int) : Editor × Except EditorFault Screen :=
  if height < 2 ∨ width < 10 then (e, .ok ⟨"(too small)".toList, []⟩)
  else
    let rows := (height - 1).toNat
    let e := { e with viewHeight := rows }.revealCursor
    (e, e.screen width rows)

end Editor

end MultiCaret
