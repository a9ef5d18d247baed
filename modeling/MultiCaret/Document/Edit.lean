import MultiCaret.Position
import MultiCaret.Text.Lines

/-!
# Edits

An edit replaces the text between two positions by another text.  It is only a request: whether the positions lie in
the document, and in this order, is checked when it is applied.
-/

namespace MultiCaret

/-- Replaces the text from `start` up to `stop`. -/
structure Edit where
  start : Position
  stop : Position
  text : Text
deriving DecidableEq

namespace Edit

/-- Puts a text in at a position. -/
def insert (p : Position) (t : Text) : Edit :=
  ⟨p, p, t⟩

/-- Takes out the text between two positions. -/
def erase (start stop : Position) : Edit :=
  ⟨start, stop, []⟩

/-- The number of lines that the edit adds, negative when it removes lines. -/
def growth (e : Edit) : Int :=
  e.text.count '\n' - (e.stop.line - e.start.line)

/-- Order by start, then by end: the order in which a batch of edits is laid out along the text. -/
def precedes (a b : Edit) : Bool :=
  decide (a.start < b.start) || (a.start == b.start && decide (a.stop ≤ b.stop))

end Edit

end MultiCaret
