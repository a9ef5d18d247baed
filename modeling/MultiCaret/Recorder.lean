import MultiCaret.Document.Basic
import MultiCaret.SmartKey

/-!
# The recording host

A host for smart keys that carries out edits, keeps selections exactly as they are given, and only writes down the
plain keystrokes and the positions to show.  It is what a smart key can be observed on by itself.
-/

namespace MultiCaret

/-- A document with selections, and a log of keystrokes and of positions to show. -/
structure Recorder where
  document : Document
  selections : List Selection
  indent : IndentOptions
  settings : Settings
  tracker : EndTracker
  forwarded : List Keystroke
  revealed : List Position

namespace Recorder

/-- What a smart key looks at. -/
def scene (r : Recorder) : Scene :=
  ⟨r.document.lines, r.selections, r.document.language, r.indent, r.settings, r.tracker.get? r.document.uri⟩

/-- Takes over a new state of the document; the End toggle forgets a document that changed. -/
def updateDocument (r : Recorder) (d : Document) : Recorder :=
  if d.version = r.document.version then { r with document := d }
  else { r with document := d, tracker := r.tracker.documentChanged d.uri }

/-- Replaces the whole text. -/
def setText (r : Recorder) (t : Text) : Recorder :=
  r.updateDocument (r.document.setText t)

/-- Applies a batch of edits, all of them or none. -/
def applyEdits (r : Recorder) (es : List Edit) : Except EditError Recorder :=
  (r.document.applyEdits es).map r.updateDocument

/-- Keeps the selections as they are; the End toggle sees where the first cursor went. -/
def setSelections (r : Recorder) (ss : List Selection) : Recorder :=
  match ss with
  | [] => { r with selections := [] }
  | s :: _ => { r with selections := ss, tracker := r.tracker.cursorMoved r.document.uri s.active }

/-- Carries out an action. -/
def carryOut (r : Recorder) (a : Action) : Except EditError Recorder :=
  (r.applyEdits a.edits).map fun r =>
    let r := r.setSelections a.selections
    { r with
      revealed := r.revealed ++ a.reveal.toList
      tracker := r.tracker.change r.document.uri a.toggle
      forwarded := r.forwarded ++ a.thenKey.toList }

/-- Answers a reaction. -/
def perform (r : Recorder) : Reaction → Except EditError Recorder
  | .decline key forgets => .ok { r with
      forwarded := r.forwarded ++ [key]
      tracker := if forgets then r.tracker.forget r.document.uri else r.tracker }
  | .act a => r.carryOut a

/-- Presses a smart key, and tells whether it acted. -/
def press (r : Recorder) (key : SmartKeyName) : Except EditError (Recorder × Bool) :=
  let reaction := key.react r.scene
  (r.perform reaction).map fun r => (r, reaction.handled)

end Recorder

end MultiCaret
