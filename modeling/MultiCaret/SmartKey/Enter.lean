import MultiCaret.BlockExpansion
import MultiCaret.KeyedLine
import MultiCaret.SmartKey.Reaction

/-!
# The Enter key

Behind an opening brace that needs a closer, Enter opens a block.  In a structured language it also puts the comma
behind a finished value; a plain newline follows then, unless a block is opened.  Several cursors open their blocks
together or not at all.
-/

namespace MultiCaret

namespace SmartKey

/-- Enter is left to its plain meaning. -/
def declineEnter : Reaction :=
  .decline .newline false

/-- The column where a comma is missing. -/
def missingTerminator? (s : Scene) (l : Text) : Option Nat :=
  if s.settings.enterInsertsTerminator ∧ isStructured s.language ∧ lacksTerminator l then some (terminatorColumn l)
  else none

/-- The block that a cursor opens, if braces are to be closed at all. -/
def block? (s : Scene) (line : Int) (l : Text) (column : Int) : Option PlannedEdit :=
  if s.settings.enterClosesBrace then expandBrace? s.lines line l column s.indent.unit else none

/-- Enter with a single caret on the line `l`. -/
def enterOnLine (s : Scene) (line column : Int) (l : Text) : Reaction :=
  match missingTerminator? s l with
  | none =>
    match block? s line l column with
    | some p => .act (.caretAt p.cursor [p.edit] .keep)
    | none => declineEnter
  | some k =>
    let column' := if k ≤ column then column + 1 else column
    match block? s line (l.take k ++ ',' :: l.drop k) column' with
    | some p => .act (.caretAt p.cursor [⟨p.edit.start, ⟨line, l.length⟩, p.edit.text⟩] .keep)
    | none =>
      .act {
        edits := [.insert ⟨line, k⟩ [',']]
        selections := [.caret ⟨line, column'⟩]
        reveal := none
        thenKey := some .newline }

/-- The block that one of several cursors opens. -/
def blockAt? (s : Scene) (p : Position) : Option PlannedEdit :=
  let l := lineOf s.lines p.line
  if HasLine s.lines p.line then expandBrace? s.lines p.line l (min p.column l.length) s.indent.unit else none

/-- Enter with several carets. -/
def enterMany (s : Scene) : Reaction :=
  let origins := s.selections.map Selection.active
  if s.settings.enterClosesBrace ∧ (origins.map Position.line).Nodup then
    match origins.mapM (blockAt? s) with
    | none => declineEnter
    | some planned =>
      let plan := EditPlan.byLine (origins.zip planned)
      .act { edits := plan.edits, selections := plan.selections, reveal := plan.selections.head?.map Selection.active }
  else declineEnter

/-- The Enter key. -/
def enterKey (s : Scene) : Reaction :=
  if allCarets s.selections then
    match s.selections with
    | [sel] =>
      let p := sel.active
      let l := lineOf s.lines p.line
      if HasLine s.lines p.line then enterOnLine s p.line (min p.column l.length) l else declineEnter
    | _ => enterMany s
  else declineEnter

end SmartKey

end MultiCaret
