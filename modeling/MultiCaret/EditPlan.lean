import MultiCaret.Document.Edit
import MultiCaret.Selection
import MultiCaret.Sorting

/-!
# Plans for several cursors

Every cursor plans its edit against the unchanged document.  A plan puts the edits in the order from the end of the
text to its beginning, to be applied as one batch, and works out where each cursor is when the whole batch is done.
`planByLine` does so for cursors on lines of their own: a cursor moves by the lines that the edits above it add.
`planByCursor` allows several cursors on a line: a cursor is carried through each edit that ends before its own one
begins (`Position.after`).
-/

namespace MultiCaret

/-- The edit of one cursor and the place where that cursor goes, given in the document with this edit alone. -/
structure PlannedEdit where
  edit : Edit
  cursor : Position
deriving DecidableEq

/-- The edits from the end of the text to its beginning, and the selections in the order of the cursors. -/
structure EditPlan where
  edits : List Edit
  selections : List Selection
deriving DecidableEq

/-- Why there is no plan. -/
inductive PlanError where
  /-- The numbers of cursors and of edits differ. -/
  | unpaired
  /-- A cursor has no edit. -/
  | missingEdit
deriving DecidableEq

/-- The reason in words. -/
def PlanError.message : PlanError → String
  | .unpaired => "one planned edit per cursor expected"
  | .missingEdit => "list index out of range"

/-- The elements from the end of the text to its beginning, those at one position in their order. -/
def bottomUp {α : Type} (place : α → Position) (l : List α) : List α :=
  sortBy (fun a b => decide (place b ≤ place a)) l

/-- The indices of the positions from the end of the text to its beginning, equal positions in their order. -/
def bottomUpOrder (ps : List Position) : List Nat :=
  (bottomUp Prod.fst ps.zipIdx).map Prod.snd

/-- The edits in the order of their cursors from the end of the text to its beginning. -/
def editsBottomUp (cursors : List (Position × PlannedEdit)) : List Edit :=
  (bottomUp Prod.fst cursors).map fun c => c.2.edit

/-- The number of lines by which a line moves when lines are added at the given starts. -/
def lineShift (added : List (Position × Int)) (line : Int) : Int :=
  (added.filter fun a => decide (a.1.line < line)).foldr (fun a k => a.2 + k) 0

/-- The positions moved by the lines that were added above each of them.  What starts on the line of a position, or
below, does not move it. -/
def shiftedByLines (ps : List Position) (added : List (Position × Int)) : List Position :=
  ps.map fun p => ⟨p.line + lineShift added p.line, p.column⟩

/-- The plan for cursors on lines of their own, each with its edit. -/
def EditPlan.byLine (cursors : List (Position × PlannedEdit)) : EditPlan :=
  let added := cursors.map fun c => (c.2.edit.start, c.2.edit.growth)
  ⟨editsBottomUp cursors, cursors.map fun (o, p) =>
    Selection.caret ⟨p.cursor.line + lineShift added o.line, p.cursor.column⟩⟩

/-- The plan for cursors on lines of their own.  Every cursor needs an edit. -/
def planByLine (origins : List Position) (planned : List PlannedEdit) : Except PlanError EditPlan :=
  if origins.length = planned.length then .ok (EditPlan.byLine (origins.zip planned)) else .error .unpaired

/-- Where a position is once an edit that ends before it is done.  A position in front of the end of the edit stays. -/
def Position.after (p : Position) (e : Edit) : Position :=
  if p < e.stop then p
  else if e.stop.line < p.line then ⟨p.line + e.growth, p.column⟩
  else
    let inserted := splitLines e.text
    let lastLine := inserted.getLast?.getD []
    let base : Int := if inserted.length = 1 then lastLine.length + e.start.column else lastLine.length
    ⟨e.start.line + inserted.length - 1, base + p.column - e.stop.column⟩

/-- The edits of the other cursors that end before an edit begins, from the end of the text to its beginning. -/
def editsBefore (planned : List PlannedEdit) (i : Nat) (e : Edit) : List Edit :=
  bottomUp Edit.start (((planned.eraseIdx i).map PlannedEdit.edit).filter fun q => decide (q.stop ≤ e.start))

/-- Where the cursors are when all their edits are done. -/
def carriedCursors (planned : List PlannedEdit) : List Position :=
  planned.zipIdx.map fun (p, i) => (editsBefore planned i p.edit).foldl Position.after p.cursor

/-- The plan for cursors of which several may be on one line, each with its edit. -/
def EditPlan.byCursor (cursors : List (Position × PlannedEdit)) : EditPlan :=
  ⟨editsBottomUp cursors, (carriedCursors (cursors.map Prod.snd)).map Selection.caret⟩

/-- The plan for cursors of which several may be on one line.  Every cursor needs an edit, and only the edits that have
a cursor are in the plan. -/
def planByCursor (origins : List Position) (planned : List PlannedEdit) : Except PlanError EditPlan :=
  if planned.length < origins.length then .error .missingEdit
  else .ok ⟨editsBottomUp (origins.zip planned), (carriedCursors planned).map Selection.caret⟩

end MultiCaret
