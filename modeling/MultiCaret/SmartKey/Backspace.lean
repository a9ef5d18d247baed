import MultiCaret.SmartKey.Reaction

/-!
# The Backspace key

On a blank line Backspace removes a line: the blank line above if there is one, otherwise the line of the cursor with
the trailing blanks of the line above.  In the indent zone it first takes away the indentation in excess of the right
one, then a blank line above, and at last joins the line with the one above.
-/

namespace MultiCaret

namespace SmartKey

/-- Removes the edited range and puts the cursor at a position. -/
def backspaceAct (e : Edit) (p : Position) : Reaction :=
  .act (.caretAt p [e] .keep)

/-- Backspace on the blank line `l`, which is not the first one. -/
def backspaceBlank (s : Scene) (line : Int) (l : Text) : Reaction :=
  let above := lineOf s.lines (line - 1)
  if isBlankText above then
    let indent := indentFor s.lines line s.indent
    backspaceAct ⟨⟨line - 1, 0⟩, ⟨line, l.length⟩, indent⟩ ⟨line - 1, indent.length⟩
  else
    let stop : Position := ⟨line - 1, (trimEnd above).length⟩
    backspaceAct (.erase stop ⟨line, l.length⟩) stop

/-- Backspace in the indent zone of the line `l`, which is not the first one. -/
def backspaceIndent (s : Scene) (line : Int) (l : Text) : Reaction :=
  let indent := indentFor s.lines line s.indent
  let first := firstNonBlank l
  let above := lineOf s.lines (line - 1)
  if indent.length < first then
    backspaceAct ⟨⟨line, 0⟩, ⟨line, first⟩, indent⟩ ⟨line, indent.length⟩
  else if isBlankText above then
    backspaceAct (.erase ⟨line - 1, 0⟩ ⟨line, 0⟩) ⟨line - 1, first⟩
  else
    let stop : Position := ⟨line - 1, (trimEnd above).length⟩
    backspaceAct ⟨stop, ⟨line, l.length⟩, trim l⟩ stop

/-- Backspace with a single caret on the line `l`. -/
def backspaceOnLine (s : Scene) (p : Position) (l : Text) : Reaction :=
  if isBlankText l then
    if s.settings.backspaceHandlesEmptyLine ∧ 0 < p.line then backspaceBlank s p.line l
    else .decline .delete false
  else if inIndentZone l p.column ∧ s.settings.backspaceHandlesIndentZone ∧ 0 < p.line then
    backspaceIndent s p.line l
  else .decline .delete false

/-- The Backspace key. -/
def backspaceKey (s : Scene) : Reaction :=
  match s.selections with
  | [sel] =>
    if sel.isEmpty ∧ HasLine s.lines sel.active.line then
      backspaceOnLine s sel.active (lineOf s.lines sel.active.line)
    else .decline .delete false
  | _ => .decline .delete false

end SmartKey

end MultiCaret
