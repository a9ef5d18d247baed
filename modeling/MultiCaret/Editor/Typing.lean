import MultiCaret.Editor.Basic
import MultiCaret.EditPlan
import MultiCaret.Text.Cut

/-!
# Plain keystrokes

Typing, newline, delete and end of line with any number of cursors.  Every cursor plans its own edit against the
document as it is, and all edits are applied as one batch; a keystroke that fails changes nothing.  Selections are
treated as cursors at their active ends.
-/

namespace MultiCaret

namespace Editor

/-- The text of a line that a cursor is on. -/
def lineFor (lines : List Text) (line : Int) : Except EditorFault Text :=
  match entryAt? lines line with
  | some l => .ok l
  | none => .error .noLine

/-- A text put in at a cursor, which goes behind it. -/
def planInsert (t : Text) (p : Position) : PlannedEdit :=
  let parts := splitLines t
  let cursor : Position :=
    if parts.length = 1 then ⟨p.line, p.column + t.length⟩
    else ⟨p.line + parts.length - 1, (parts.getLast?.getD []).length⟩
  ⟨.insert p t, cursor⟩

/-- A newline at a cursor.  The new line gets the indentation in front of the cursor. -/
def planNewline (lines : List Text) (p : Position) : Except EditorFault PlannedEdit :=
  (lineFor lines p.line).map fun l =>
    let indent := upTo (leadingBlanks l) p.column
    ⟨.insert p ('\n' :: indent), ⟨p.line + 1, indent.length⟩⟩

/-- The place in front of a position, at the end of the line above for the beginning of a line; none in front of the
beginning of the text. -/
def placeBefore? (lines : List Text) (p : Position) : Except EditorFault (Option Position) :=
  if 0 < p.column then .ok (some ⟨p.line, p.column - 1⟩)
  else if 0 < p.line then (lineFor lines (p.line - 1)).map fun l => some ⟨p.line - 1, l.length⟩
  else .ok none

/-- The removal of the character in front of a cursor. -/
def planDelete (lines : List Text) (p : Position) : Except EditorFault (Option PlannedEdit) :=
  (placeBefore? lines p).map fun q? => q?.map fun q => ⟨.erase q p, q⟩

/-- Applies the planned edits, moves their cursors, puts the selections without an edit behind them and scrolls to the
primary cursor. -/
def commit (e : Editor) (cursors : List (Position × PlannedEdit)) (untouched : List Selection) :
    Except EditorFault Editor :=
  if cursors.isEmpty then .ok e
  else
    let plan := EditPlan.byCursor cursors
    (e.applyEdits plan.edits).map fun e => (e.setSelections (plan.selections ++ untouched)).revealCursor

/-- Types a text at every cursor. -/
def typeText (e : Editor) (t : Text) : Except EditorFault Editor :=
  e.commit (e.selections.map fun s => (s.active, planInsert t s.active)) []

/-- Starts a new line at every cursor. -/
def newline (e : Editor) : Except EditorFault Editor :=
  match e.selections.mapM fun s => (planNewline e.lines s.active).map fun p => (s.active, p) with
  | .ok cursors => e.commit cursors []
  | .error f => .error f

/-- Deletes the character in front of every cursor. -/
def delete (e : Editor) : Except EditorFault Editor :=
  match e.selections.mapM fun s => (planDelete e.lines s.active).map fun p => (s, p) with
  | .ok planned =>
    e.commit (planned.filterMap fun (s, p?) => p?.map fun p => (s.active, p))
      ((planned.filter fun x => x.2.isNone).map Prod.fst)
  | .error f => .error f

/-- Moves every cursor; selections become carets. -/
def moveCursors (e : Editor) (move : Position → Except EditorFault Position) : Except EditorFault Editor :=
  match e.selections.mapM fun s => (move s.active).map Selection.caret with
  | .ok carets => .ok (e.setSelections carets).revealCursor
  | .error f => .error f

/-- Moves every cursor to the end of its line. -/
def lineEnd (e : Editor) : Except EditorFault Editor :=
  e.moveCursors fun p => (lineFor e.lines p.line).map fun l => ⟨p.line, l.length⟩

/-- A keystroke with its plain meaning. -/
def press (e : Editor) : Keystroke → Except EditorFault Editor
  | .literal t => e.typeText t
  | .newline => e.newline
  | .delete => e.delete
  | .lineEnd => e.lineEnd

end Editor

end MultiCaret
