import MultiCaret.SmartKey.Reaction

/-!
# The End key

On a line with something on it End goes to the end without trailing blanks, and from there to the full end and back.
On a blank line it puts the cursor at the indentation that the line should have.  With several cursors each of them
goes to its end without trailing blanks, or has its blank line indented, and nothing is remembered.
-/

namespace MultiCaret

namespace SmartKey

/-- End is left to its plain meaning, and its last place forgotten. -/
def declineEnd : Reaction :=
  .decline .lineEnd true

/-- The edit that gives a blank line the indentation `indent`, if it has another one. -/
def reindent? (line : Int) (old indent : Text) : Option Edit :=
  if old = indent then none else some ⟨⟨line, 0⟩, ⟨line, old.length⟩, indent⟩

/-- The end that a cursor goes to on a line with something on it, and whether it is the end without blanks. -/
def endTarget (toggle : Option EndToggle) (column : Int) (trimmed full : Nat) : Nat × Bool :=
  let reached := toggle.filter fun _ => decide (trimmed ≤ column)
  if reached.any (fun t => t.atTrimmedEnd) && column == trimmed then (full, false)
  else if reached.any (fun t => !t.atTrimmedEnd) && column == full then (trimmed, true)
  else if column == trimmed && decide (trimmed < full) then (full, false)
  else (trimmed, true)

/-- End with a single caret on the line `l`. -/
def endOnLine (s : Scene) (p : Position) (l : Text) : Reaction :=
  if isBlankText l then
    if s.settings.endIndentsEmptyLine then
      let indent := indentFor s.lines p.line s.indent
      .act (.caretAt ⟨p.line, indent.length⟩ (reindent? p.line l indent).toList
        (.record ⟨p.line, indent.length, false⟩))
    else declineEnd
  else if s.settings.endTogglesTrimmedEnd then
    let live := s.toggle.filter fun t => !t.isStale p
    let (column, atTrimmedEnd) := endTarget live p.column (trimEnd l).length l.length
    .act (.caretAt ⟨p.line, column⟩ [] (.record ⟨p.line, column, atTrimmedEnd⟩))
  else declineEnd

/-- The edit that one of several cursors brings, with the line that it is for. -/
def endEdit? (s : Scene) (line : Int) : Option Edit :=
  let l := lineOf s.lines line
  if HasLine s.lines line ∧ isBlankText l ∧ s.settings.endIndentsEmptyLine then
    reindent? line l (indentFor s.lines line s.indent)
  else none

/-- Where one of several cursors goes. -/
def endCaret (s : Scene) (sel : Selection) : Selection :=
  let line := sel.active.line
  let l := lineOf s.lines line
  if HasLine s.lines line then
    if isBlankText l ∧ s.settings.endIndentsEmptyLine then
      .caret ⟨line, (indentFor s.lines line s.indent).length⟩
    else if !isBlankText l ∧ s.settings.endTogglesTrimmedEnd then .caret ⟨line, (trimEnd l).length⟩
    else .caret ⟨line, l.length⟩
  else sel

/-- End with several carets.  Cursors on one line share their edit. -/
def endMany (s : Scene) : Reaction :=
  if s.settings.endIndentsEmptyLine || s.settings.endTogglesTrimmedEnd then
    let targets := s.selections.map (endCaret s)
    .act {
      edits := (s.selections.map fun sel => sel.active.line).eraseDups.filterMap (endEdit? s)
      selections := targets
      reveal := targets.head?.map Selection.active
      toggle := .forget }
  else declineEnd

/-- The End key. -/
def endKey (s : Scene) : Reaction :=
  if allCarets s.selections then
    match s.selections with
    | [sel] =>
      if HasLine s.lines sel.active.line then
        endOnLine s sel.active (lineOf s.lines sel.active.line)
      else .decline .lineEnd false
    | _ => endMany s
  else declineEnd

end SmartKey

end MultiCaret
