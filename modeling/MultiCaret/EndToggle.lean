import MultiCaret.Position

/-!
# End toggle

The End key goes back and forth between two ends of a line, so the last place that it chose is kept for every
document.  The record is dropped as soon as the document changes, or the cursor leaves the line or moves more than
one column away from the recorded one.
-/

namespace MultiCaret

/-- The last place that the End key chose. -/
structure EndToggle where
  line : Int
  column : Int
  /-- The place was the end without trailing blanks. -/
  atTrimmedEnd : Bool
deriving DecidableEq

/-- How many columns the cursor may be away from the recorded place. -/
def EndToggle.tolerance : Nat := 1

/-- Has a cursor at the position left the recorded place? -/
def EndToggle.isStale (t : EndToggle) (p : Position) : Bool :=
  p.line != t.line || decide (EndToggle.tolerance < (p.column - t.column).natAbs)

/-- The records, by document. -/
abbrev EndTracker := List (String × EndToggle)

namespace EndTracker

/-- The record of a document. -/
def get? (t : EndTracker) (id : String) : Option EndToggle :=
  List.lookup id t

/-- The record of a document, unless a cursor at the position has left it. -/
def lookup? (t : EndTracker) (id : String) (p : Position) : Option EndToggle :=
  (t.get? id).filter fun e => !e.isStale p

/-- Drops the record of a document. -/
def forget (t : EndTracker) (id : String) : EndTracker :=
  List.filter (fun e => e.1 != id) t

/-- Keeps a new record for a document in place of its old one. -/
def record (t : EndTracker) (id : String) (e : EndToggle) : EndTracker :=
  (id, e) :: t.forget id

/-- Would a cursor at the position make the record of a document stale? -/
def isStale (t : EndTracker) (id : String) (p : Position) : Bool :=
  (t.get? id).any fun e => e.isStale p

/-- The records after the cursor of a document went to a position. -/
def cursorMoved (t : EndTracker) (id : String) (p : Position) : EndTracker :=
  if t.isStale id p then t.forget id else t

/-- The records after a document changed. -/
def documentChanged (t : EndTracker) (id : String) : EndTracker :=
  t.forget id

end EndTracker

end MultiCaret
