import MultiCaret.Document.Basic
import MultiCaret.OpeningTag

/-!
# Indentation

The indentation of a new line is that of the nearest line above with something on it, and one step deeper if that line
opens a block: if it ends in an opening bracket, a colon or an opening tag.  The *indent zone* of a line is the stretch
from its beginning up to its first character that is no blank.
-/

namespace MultiCaret

/-- How far one step of indentation goes and what it is made of. -/
structure IndentOptions where
  tabSize : Int := 4
  spaces : Bool := true
deriving DecidableEq

/-- One step of indentation: at least one space, or a tab. -/
def IndentOptions.unit (o : IndentOptions) : Text :=
  if o.spaces then List.replicate (max 1 o.tabSize).toNat ' ' else ['\t']

/-- The nearest line above the line `n` that is not blank, with its number.  A number behind the last line stands for
the end of the document. -/
def nonBlankAbove? (lines : List Text) (n : Int) : Option (Nat × Text) :=
  ((lines.take n.toNat).zipIdx.reverse.find? fun (l, _) => !isBlankText l).map fun (l, i) => (i, l)

/-- Does the line open a block, so that the next one goes one step deeper? -/
def opensBlock (line : Text) : Bool :=
  let t := trim line
  (match t.getLast? with
    | some c => c == '\x7b' || c == ':' || c == '(' || c == '['
    | none => false) ||
  isOpeningTag t

/-- The indentation that a new line with the number `n` gets. -/
def indentFor (lines : List Text) (n : Int) (o : IndentOptions) : Text :=
  match nonBlankAbove? lines n with
  | none => []
  | some (_, l) => if opensBlock l then leadingBlanks l ++ o.unit else leadingBlanks l

/-- The column of the first character that is no blank, zero on a blank line. -/
def firstNonBlank (line : Text) : Nat :=
  (line.findIdx? fun c => !isBlank c).getD 0

/-- Is the column in the indent zone?  A blank line has none. -/
def inIndentZone (line : Text) (column : Int) : Bool :=
  match line.findIdx? fun c => !isBlank c with
  | some first => decide (column ≤ first)
  | none => false

end MultiCaret
