import MultiCaret.Document.Basic
import MultiCaret.SmartKey.Reaction

/-!
# The editor

A document with several cursors, a history and a window on the text.  The editor keeps its selections inside the
document and different from one another whenever they are set (`Editor.setSelections`); the first one is the primary
cursor.
-/

namespace MultiCaret

/-- What the history keeps of a moment: the lines and the selections. -/
structure Snapshot where
  lines : List Text
  selections : List Selection
deriving DecidableEq

/-- The message in the status bar. -/
inductive Status where
  | quiet
  | undone
  | redone
  | nothingToUndo
  | nothingToRedo
  | cursors (n : Nat)
deriving DecidableEq

/-- What the editor asks of the application around it. -/
inductive Message where
  /-- Save this text. -/
  | save (t : Text)
  | quit
deriving DecidableEq

/-- Why a step of the editor fails. -/
inductive EditorFault where
  /-- The document refuses the edits. -/
  | refused (e : EditError)
  /-- A cursor is on a line that the document does not have any more. -/
  | noLine
deriving DecidableEq

/-- The reason in words. -/
def EditorFault.message : EditorFault → Text
  | .refused e => e.message
  | .noLine => "list index out of range".toList

/-- The editor.  The newest snapshot of the history comes first. -/
structure Editor where
  document : Document
  indent : IndentOptions
  settings : Settings
  tracker : EndTracker
  selections : List Selection
  status : Status
  undoStack : List Snapshot
  redoStack : List Snapshot
  scrollTop : Int
  /-- The number of lines that the window shows, zero before it has been drawn. -/
  viewHeight : Nat
  messages : List Message

namespace Status

/-- The wording of the message. -/
def text : Status → String
  | quiet => ""
  | undone => "undone"
  | redone => "redone"
  | nothingToUndo => "nothing to undo"
  | nothingToRedo => "nothing to redo"
  | cursors n => toString n ++ " cursors"

end Status

/-- The nearest place in the lines. -/
def clampTo (lines : List Text) (p : Position) : Position :=
  let line := max 0 (min p.line (lines.length - 1))
  ⟨line, max 0 (min p.column (lineOf lines line).length)⟩

/-- The selections moved into the lines, only the first of equal ones kept. -/
def settle (lines : List Text) (ss : List Selection) : List Selection :=
  (ss.map fun s => ⟨clampTo lines s.anchor, clampTo lines s.active⟩).eraseDups

namespace Editor

/-- The editor on a new document. -/
def ofDocument (d : Document) (indent : IndentOptions) (settings : Settings) : Editor where
  document := d
  indent := indent
  settings := settings
  tracker := []
  selections := [.caret origin]
  status := .quiet
  undoStack := []
  redoStack := []
  scrollTop := 0
  viewHeight := 0
  messages := []

/-- The lines of the document. -/
def lines (e : Editor) : List Text :=
  e.document.lines

/-- The position of the primary cursor. -/
def cursor (e : Editor) : Position :=
  match e.selections with
  | s :: _ => s.active
  | [] => origin

/-- The record of the End toggle for the document. -/
def toggle? (e : Editor) : Option EndToggle :=
  e.tracker.get? e.document.uri

/-- What a smart key looks at. -/
def scene (e : Editor) : Scene :=
  ⟨e.lines, e.selections, e.document.language, e.indent, e.settings, e.toggle?⟩

/-- Sets the selections, moved into the document and without repetitions; there is always at least one.  The End
toggle sees where the primary cursor went. -/
def setSelections (e : Editor) (ss : List Selection) : Editor :=
  let settled := match settle e.lines ss with
    | [] => [.caret origin]
    | s :: rest => s :: rest
  let e := { e with selections := settled }
  { e with tracker := e.tracker.cursorMoved e.document.uri e.cursor }

/-- Scrolls as little as needed to show a position. -/
def reveal (e : Editor) (p : Position) : Editor :=
  if p.line < e.scrollTop then { e with scrollTop := p.line }
  else if 0 < e.viewHeight ∧ e.scrollTop + e.viewHeight ≤ p.line then
    { e with scrollTop := p.line - e.viewHeight + 1 }
  else e

/-- Scrolls to the primary cursor. -/
def revealCursor (e : Editor) : Editor :=
  e.reveal e.cursor

/-- Takes over a new state of the document; the End toggle forgets a document that changed. -/
def updateDocument (e : Editor) (d : Document) : Editor :=
  if d.version = e.document.version then { e with document := d }
  else { e with document := d, tracker := e.tracker.documentChanged d.uri }

/-- Replaces the whole text; the selections stay as they are. -/
def setText (e : Editor) (t : Text) : Editor :=
  e.updateDocument (e.document.setText t)

/-- Applies a batch of edits, all of them or none; the selections stay as they are. -/
def applyEdits (e : Editor) (es : List Edit) : Except EditorFault Editor :=
  match e.document.applyEdits es with
  | .ok d => .ok (e.updateDocument d)
  | .error f => .error (.refused f)

/-- Opens another text: the cursor goes to its beginning and the history is empty. -/
def setContent (e : Editor) (t : Text) : Editor :=
  { e.setText t with selections := [.caret origin], scrollTop := 0, undoStack := [], redoStack := [] }

end Editor

end MultiCaret
