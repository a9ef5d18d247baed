import MultiCaret.Document.Edit
import MultiCaret.Sorting
import MultiCaret.Text.Numeral

/-!
# Documents

A document is a non-empty list of lines together with its identity, its language and the number of its changes.  Its
text changes in two ways: all of it at once (`Document.setText`), or by a batch of edits (`Document.applyEdits`).
Every range of a batch is a range of the document as it is before the batch; the batch is checked as a whole before
anything is changed, and then worked off from the end of the text to its beginning, so that no edit moves the ranges
that are still to come.
-/

namespace MultiCaret

/-- Why a batch of edits is refused. -/
inductive EditError where
  /-- The range ends before it starts. -/
  | inverted (start stop : Position)
  /-- An end of the range is no place in the document. -/
  | outOfBounds (start stop : Position)
  /-- The range starts before the previous one ends. -/
  | overlapping (start : Position)
deriving DecidableEq

/-- A line that the document does not have: its number, and the number of lines. -/
structure NoSuchLine where
  line : Int
  count : Nat
deriving DecidableEq

/-- The lines of a text file with its identity, its language and the number of its changes. -/
structure Document where
  lines : List Text
  uri : String
  language : Text
  version : Nat
deriving DecidableEq

/-- The lines have one of this number. -/
def HasLine (lines : List Text) (line : Int) : Prop :=
  0 ≤ line ∧ line < lines.length

instance (lines : List Text) (line : Int) : Decidable (HasLine lines line) :=
  inferInstanceAs (Decidable (0 ≤ line ∧ line < lines.length))

/-- The text of a line, empty outside the document. -/
def lineOf (lines : List Text) (line : Int) : Text :=
  if line < 0 then [] else lines[line.toNat]?.getD []

/-- A place in the lines, the one behind the last character of a line included. -/
def InBounds (lines : List Text) (p : Position) : Prop :=
  HasLine lines p.line ∧ 0 ≤ p.column ∧ p.column ≤ (lineOf lines p.line).length

instance (lines : List Text) (p : Position) : Decidable (InBounds lines p) :=
  inferInstanceAs (Decidable (HasLine lines p.line ∧ 0 ≤ p.column ∧ p.column ≤ (lineOf lines p.line).length))

/-- The lines after one edit, whose range lies in the lines: the line of its start up to there, its text, and the line
of its end from there on, cut at the newlines that this holds. -/
def splice (e : Edit) (lines : List Text) : List Text :=
  let before := (lineOf lines e.start.line).take e.start.column.toNat
  let after := (lineOf lines e.stop.line).drop e.stop.column.toNat
  lines.take e.start.line.toNat ++ splitLines (before ++ e.text ++ after) ++ lines.drop (e.stop.line.toNat + 1)

/-- Checks the ranges of a batch that is laid out along the text; `reached` is the end of the ranges before it. -/
def checkRanges (lines : List Text) : Option Position → List Edit → Except EditError Unit
  | _, [] => .ok ()
  | reached, e :: es =>
    if e.stop < e.start then .error (.inverted e.start e.stop)
    else if ¬ (InBounds lines e.start ∧ InBounds lines e.stop) then .error (.outOfBounds e.start e.stop)
    else if reached.any (fun r => decide (e.start < r)) then .error (.overlapping e.start)
    else checkRanges lines (some e.stop) es

/-- The lines after a checked batch that is laid out along the text.  The last edit is done first. -/
def spliceAll (es : List Edit) (lines : List Text) : List Text :=
  es.foldr splice lines

namespace Document

/-- The document that holds a text. -/
def ofText (t : Text) (uri : String) (language : Text) : Document :=
  ⟨splitLines t, uri, language, 0⟩

/-- The text of the document. -/
def text (d : Document) : Text :=
  joinLines d.lines

/-- Replaces the whole text. -/
def setText (d : Document) (t : Text) : Document :=
  { d with lines := splitLines t, version := d.version + 1 }

/-- Applies a batch of edits, all of them or none.  The empty batch is no change. -/
def applyEdits (d : Document) (es : List Edit) : Except EditError Document :=
  match sortBy Edit.precedes es with
  | [] => .ok d
  | laid =>
    match checkRanges d.lines none laid with
    | .error e => .error e
    | .ok () => .ok { d with lines := spliceAll laid d.lines, version := d.version + 1 }

/-- The text of a line. -/
def lineAt (d : Document) (line : Int) : Except NoSuchLine Text :=
  if HasLine d.lines line then .ok (lineOf d.lines line) else .error ⟨line, d.lines.length⟩

end Document

/-- The position in a message. -/
def Position.display (p : Position) : Text :=
  "Position(line=".toList ++ numeral p.line ++ ", character=".toList ++ numeral p.column ++ [')']

/-- The reason in words. -/
def EditError.message : EditError → Text
  | .inverted start stop => "inverted range ".toList ++ start.display ++ " > ".toList ++ stop.display
  | .outOfBounds start stop => "edit range out of bounds: ".toList ++ start.display ++ "..".toList ++ stop.display
  | .overlapping start => "overlapping edits at ".toList ++ start.display

/-- The reason in words. -/
def NoSuchLine.message (e : NoSuchLine) : Text :=
  "line ".toList ++ numeral e.line ++ " out of range (0..".toList ++ numeral (e.count - 1) ++ [')']

end MultiCaret
