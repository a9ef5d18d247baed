import MultiCaret.Editor.Basic

/-!
# Undo and redo

The history is two stacks of snapshots.  A key that edits leaves the moment before it on the undo stack, from which the
oldest moment goes when there are more than `Editor.historyLimit` of them, and gives up what could have been redone.
-/

namespace MultiCaret

/-- The editor after a step, and the fault that cut the step short, if there was one. -/
structure Attempt where
  editor : Editor
  fault : Option EditorFault

/-- A step that fails without changing anything. -/
def Attempt.orUnchanged (e : Editor) : Except EditorFault Editor → Attempt
  | .ok e => ⟨e, none⟩
  | .error f => ⟨e, some f⟩

/-- A step that succeeds. -/
def Attempt.done (e : Editor) : Attempt :=
  ⟨e, none⟩

namespace Editor

/-- The number of snapshots from which on a new one takes the place of the oldest one. -/
def historyLimit : Nat := 200

/-- The present moment. -/
def snapshot (e : Editor) : Snapshot :=
  ⟨e.lines, e.selections⟩

/-- Goes back to a moment. -/
def restore (e : Editor) (s : Snapshot) : Editor :=
  (e.setText (joinLines s.lines)).setSelections s.selections

/-- Puts the present moment on the undo stack; the oldest one gives way if the stack is full. -/
def saveMoment (e : Editor) : Editor :=
  let kept := if e.undoStack.length < historyLimit then e.undoStack else e.undoStack.dropLast
  { e with undoStack := e.snapshot :: kept }

/-- Goes back by one moment. -/
def undo (e : Editor) : Editor :=
  match e.undoStack with
  | [] => { e with status := .nothingToUndo }
  | s :: rest =>
    let e := { e with undoStack := rest, redoStack := e.snapshot :: e.redoStack }
    { e.restore s with status := .undone }

/-- Goes forward by one moment. -/
def redo (e : Editor) : Editor :=
  match e.redoStack with
  | [] => { e with status := .nothingToRedo }
  | s :: rest =>
    let e := { e with redoStack := rest, undoStack := e.snapshot :: e.undoStack }
    { e.restore s with status := .redone }

/-- Runs an edit with the moment before it on the undo stack.  If the text did not change, the newest moment is taken
from the stack again; otherwise there is nothing to redo any more.  An edit that fails leaves the moment on the
stack. -/
def edit (e : Editor) (run : Editor → Attempt) : Attempt :=
  let a := run e.saveMoment
  match a.fault with
  | some _ => a
  | none =>
    if a.editor.document.version = e.document.version then
      .done { a.editor with undoStack := a.editor.undoStack.tail }
    else .done { a.editor with redoStack := [] }

end Editor

end MultiCaret
