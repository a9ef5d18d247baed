import MultiCaret.Position

/-!
# Selections

A selection runs from an anchor to an active end, in either direction; the cursor stands at the active end.  A caret
is a selection whose two ends meet.
-/

namespace MultiCaret

/-- A stretch of text from its anchor to its active end. -/
structure Selection where
  anchor : Position
  active : Position
deriving DecidableEq

namespace Selection

/-- The empty selection at a position. -/
def caret (p : Position) : Selection :=
  ⟨p, p⟩

/-- The two ends meet. -/
def isEmpty (s : Selection) : Bool :=
  s.anchor == s.active

/-- The end that comes first in the text. -/
def first (s : Selection) : Position :=
  s.anchor.earlier s.active

/-- The end that comes last in the text. -/
def last (s : Selection) : Position :=
  s.anchor.later s.active

theorem isEmpty_iff {s : Selection} : s.isEmpty = true ↔ s = caret s.active := by
  obtain ⟨a, b⟩ := s
  simp [isEmpty, caret]

theorem isEmpty_caret (p : Position) : (caret p).isEmpty = true := by
  simp [isEmpty, caret]

end Selection

/-- There is a selection and all of them are carets. -/
def allCarets (ss : List Selection) : Bool :=
  !ss.isEmpty && ss.all Selection.isEmpty

end MultiCaret
