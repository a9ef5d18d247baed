import MultiCaret.EndToggle
import MultiCaret.Indentation
import MultiCaret.Selection
import MultiCaret.Settings.Basic

/-!
# Reactions of smart keys

A smart key looks at the document, the cursors and the settings once (`Scene`) and answers with a `Reaction`: either it
declines and leaves the keystroke to its plain meaning, or it acts.  An action is carried out by the host in a fixed
order: first the edits as one batch, then the selections, then the position to show, then the change of the End
toggle, and last a plain keystroke if one is to follow.  A declined key cannot change text or cursors, because a
declined reaction holds no edit and no selection.
-/

namespace MultiCaret

/-- A keystroke with its plain meaning. -/
inductive Keystroke where
  | literal (t : Text)
  | newline
  | delete
  | lineEnd
deriving DecidableEq

/-- What a smart key looks at. -/
structure Scene where
  lines : List Text
  selections : List Selection
  language : Text
  indent : IndentOptions
  settings : Settings
  /-- The last place that the End key chose in this document. -/
  toggle : Option EndToggle

/-- What becomes of the record of the End toggle. -/
inductive ToggleChange where
  | keep
  | forget
  | record (e : EndToggle)
deriving DecidableEq

/-- The records of the End toggle after a change that a smart key asks for. -/
def EndTracker.change (t : EndTracker) (id : String) : ToggleChange → EndTracker
  | .keep => t
  | .forget => t.forget id
  | .record e => t.record id e

/-- What an acting smart key asks of its host. -/
structure Action where
  edits : List Edit
  selections : List Selection
  reveal : Option Position
  toggle : ToggleChange := .keep
  thenKey : Option Keystroke := none
deriving DecidableEq

/-- The answer of a smart key. -/
inductive Reaction where
  /-- The keystroke has its plain meaning; `forgets` says that the record of the End toggle is dropped before. -/
  | decline (key : Keystroke) (forgets : Bool)
  | act (a : Action)
deriving DecidableEq

/-- Did the smart key act? -/
def Reaction.handled : Reaction → Bool
  | .decline .. => false
  | .act _ => true

/-- The action that puts a single caret at a position and shows it, after some edits. -/
def Action.caretAt (p : Position) (es : List Edit) (toggle : ToggleChange) : Action :=
  { edits := es, selections := [Selection.caret p], reveal := some p, toggle := toggle }

end MultiCaret
