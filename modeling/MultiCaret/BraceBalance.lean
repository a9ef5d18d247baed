import MultiCaret.Document.Basic

/-!
# Balance of braces

The scan reads the lines from top to bottom and keeps the opening braces that no closing brace has met yet.  It is
purely textual: braces in strings and comments count like any other.  A closing brace always closes the innermost
open one, and one that finds nothing open is passed over.  An opening brace *needs a closer* when the scan leaves it
open, or when it takes away the closing brace of an outer one, that is, when without it fewer braces would stay open.
-/

namespace MultiCaret

/-- The characters of a line with their places, from a column on. -/
def locatedFrom (line column : Int) : Text → List (Position × Char)
  | [] => []
  | c :: cs => (⟨line, column⟩, c) :: locatedFrom line (column + 1) cs

/-- The characters of the lines with their places, from a line on. -/
def locatedLines (line : Int) : List Text → List (Position × Char)
  | [] => []
  | l :: ls => locatedFrom line 0 l ++ locatedLines (line + 1) ls

/-- The characters of a document with their places, in reading order. -/
def located (lines : List Text) : List (Position × Char) :=
  locatedLines 0 lines

/-- The places of the braces that are open behind a stretch of text, innermost first, when those of `stack` are open
in front of it. -/
def openAfter (stack : List Position) : List (Position × Char) → List Position
  | [] => stack
  | (p, c) :: rest =>
    if c = '\x7b' then openAfter (p :: stack) rest
    else if c = '\x7d' then openAfter stack.tail rest
    else openAfter stack rest

/-- The opening braces that the scan leaves open, innermost first. -/
def unmatchedBraces (lines : List Text) : List Position :=
  openAfter [] (located lines)

/-- The number of braces that stay open. -/
def countUnmatched (lines : List Text) : Nat :=
  (unmatchedBraces lines).length

/-- Does the opening brace at the position stay open? -/
def isUnmatched (lines : List Text) (p : Position) : Bool :=
  (unmatchedBraces lines).contains p

/-- The character at a position, if there is one. -/
def charAt? (lines : List Text) (p : Position) : Option Char :=
  if HasLine lines p.line ∧ 0 ≤ p.column then (lineOf lines p.line)[p.column.toNat]? else none

/-- The lines without the character at a position. -/
def eraseChar (lines : List Text) (p : Position) : List Text :=
  lines.modify p.line.toNat fun l => l.eraseIdx p.column.toNat

/-- Should the brace at the position get a closer?  Yes if it stays open, or if it takes away the closer of another
one. -/
def needsCloser (lines : List Text) (p : Position) : Bool :=
  charAt? lines p == some '\x7b' &&
    (isUnmatched lines p || decide (countUnmatched (eraseChar lines p) < countUnmatched lines))

end MultiCaret
