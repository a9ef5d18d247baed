import MultiCaret.Editor.History
import MultiCaret.Editor.Movement
import MultiCaret.SmartKey
import MultiCaret.Text.Printable

/-!
# Keys of the editor

A key is read as a command by its name, and by the character that it types if its name means nothing
(`Command.ofKey`).  Commands that may change the text are run with a moment of history.
-/

namespace MultiCaret

/-- What a key can ask for. -/
inductive Command where
  | smart (key : SmartKeyName)
  | indent
  | home
  | left
  | right
  | up
  | down
  | cursorAbove
  | cursorBelow
  | singleCursor
  | undo
  | redo
  | save
  | quit
  | type (t : Text)
  | nothing
deriving DecidableEq

/-- The command that a character stands for: the separator has a smart key, and what can be printed is typed. -/
def Command.ofChar (char : Text) : Command :=
  if char = [':'] then .smart .separator
  else if char.isEmpty then .nothing
  else if char.all isPrintable then .type char
  else .nothing

/-- The command of a key with the given name, which types the given character, if any. -/
def Command.ofKey (key : String) (char : Text) : Command :=
  match key with
  | "enter" => .smart .enter
  | "backspace" => .smart .backspace
  | "end" => .smart .lineEnd
  | "tab" => .indent
  | "home" => .home
  | "left" => .left
  | "right" => .right
  | "up" => .up
  | "down" => .down
  | "alt+up" => .cursorAbove
  | "ctrl+up" => .cursorAbove
  | "alt+down" => .cursorBelow
  | "ctrl+down" => .cursorBelow
  | "escape" => .singleCursor
  | "ctrl+z" => .undo
  | "ctrl+y" => .redo
  | "ctrl+s" => .save
  | "ctrl+q" => .quit
  | _ => .ofChar char

namespace Editor

/-- Changes the record of the End toggle. -/
def changeToggle (e : Editor) (c : ToggleChange) : Editor :=
  { e with tracker := e.tracker.change e.document.uri c }

/-- Carries out an action: edits, selections, scrolling, End toggle and a plain keystroke, in this order. -/
def carryOut (e : Editor) (a : Action) : Attempt :=
  match e.applyEdits a.edits with
  | .error f => ⟨e, some f⟩
  | .ok e =>
    let e := e.setSelections a.selections
    let e := match a.reveal with
      | some p => e.reveal p
      | none => e
    let e := e.changeToggle a.toggle
    match a.thenKey with
    | some key => .orUnchanged e (e.press key)
    | none => .done e

/-- Answers a reaction. -/
def perform (e : Editor) : Reaction → Attempt
  | .decline key forgets =>
    let e := if forgets then e.changeToggle .forget else e
    .orUnchanged e (e.press key)
  | .act a => e.carryOut a

/-- Presses a smart key. -/
def pressSmart (e : Editor) (key : SmartKeyName) : Attempt :=
  e.perform (key.react e.scene)

/-- Asks something of the application. -/
def post (e : Editor) (m : Message) : Editor :=
  { e with messages := e.messages ++ [m] }

/-- Runs a command. -/
def run (e : Editor) : Command → Attempt
  | .smart key => e.edit fun e => e.pressSmart key
  | .indent => e.edit fun e => .orUnchanged e (e.typeText e.indent.unit)
  | .type t => e.edit fun e => .orUnchanged e (e.typeText t)
  | .home => .orUnchanged e (e.moveCursors (homeOf e.lines))
  | .left => .orUnchanged e (e.moveCursors (leftOf e.lines))
  | .right => .orUnchanged e (e.moveCursors (rightOf e.lines))
  | .up => .orUnchanged e (e.moveCursors (lineStep e.lines (-1)))
  | .down => .orUnchanged e (e.moveCursors (lineStep e.lines 1))
  | .cursorAbove => .done e.addCursorAbove
  | .cursorBelow => .done e.addCursorBelow
  | .singleCursor => .done e.singleCursor
  | .undo => .done e.undo
  | .redo => .done e.redo
  | .save => .done (e.post (.save e.document.text))
  | .quit => .done (e.post .quit)
  | .nothing => .done e

/-- Handles a key.  The message in the status bar goes away first. -/
def handleKey (e : Editor) (key : String) (char : Text) : Attempt :=
  { e with status := .quiet }.run (.ofKey key char)

/-- Handles the event of a key.  An event without a character stands for its key if this has a name of one
character. -/
def handleEvent (e : Editor) (key : String) (char? : Option Text) : Attempt :=
  e.handleKey key (char?.getD (if key.length = 1 then key.toList else []))

end Editor

end MultiCaret
