import MultiCaret.BraceBalance
import MultiCaret.EditPlan
import MultiCaret.Text.Blank
import MultiCaret.Text.Cut

/-!
# Blocks of three lines

An opening brace in front of the cursor that needs a closer is made into a block of three lines: the line up to the
brace, an indented line with the cursor and what stood behind the brace, and the closing brace.  A closing brace that
is there already on the line goes to the third line with all that follows it; what stood between the braces is given
up then.
-/

namespace MultiCaret

/-- The text behind the first closing brace, if there is one. -/
def afterCloser? (t : Text) : Option Text :=
  if t.contains '\x7d' then some ((t.dropWhile (· != '\x7d')).drop 1) else none

/-- The block that an opening brace at the column `brace` of the line `l` becomes: from the end of the first line to
the end of the last one. -/
def blockText (l : Text) (brace : Nat) (unit : Text) : Text :=
  let base := leadingBlanks l
  let rest := l.drop (brace + 1)
  let (carried, tail) := match afterCloser? rest with
    | some tail => ([], tail)
    | none => (trim rest, [])
  '\n' :: base ++ unit ++ carried ++ '\n' :: base ++ '\x7d' :: tail

/-- The column of the opening brace in front of the cursor, blanks aside. -/
def braceBefore? (l : Text) (column : Int) : Option Nat :=
  let before := trimEnd (upTo l column)
  if before.getLast? = some '\x7b' then some (before.length - 1) else none

/-- Opens a block at a cursor on the line `line`, if the brace in front of it needs a closer.  The text `l` stands for
that line, and the edit is in the coordinates of this text. -/
def expandBrace? (lines : List Text) (line : Int) (l : Text) (column : Int) (unit : Text) : Option PlannedEdit :=
  match braceBefore? l column with
  | none => none
  | some brace =>
    if needsCloser (lines.set line.toNat (l.take (brace + 1))) ⟨line, brace⟩ then
      some ⟨⟨⟨line, brace + 1⟩, ⟨line, l.length⟩, blockText l brace unit⟩,
        ⟨line + 1, (leadingBlanks l).length + unit.length⟩⟩
    else none

/-- Why no block can be planned on a line. -/
inductive ExpansionError where
  /-- The line to be read is not there. -/
  | noLine
  /-- The line that the text stands for is not there. -/
  | noLineToReplace
deriving DecidableEq

/-- The reason in words. -/
def ExpansionError.message : ExpansionError → String
  | .noLine => "list index out of range"
  | .noLineToReplace => "list assignment index out of range"

/-- Opens a block on any line, counted from the end when negative; on such a line no brace needs a closer.  The text
`l?`, if given, stands for the line. -/
def planBlock (lines : List Text) (line : Int) (column : Int) (unit : Text) (l? : Option Text) :
    Except ExpansionError (Option PlannedEdit) :=
  match l?, entryAt? lines line with
  | none, none => .error .noLine
  | none, some l => .ok (expandBrace? lines line l column unit)
  | some l, none => if (braceBefore? l column).isSome then .error .noLineToReplace else .ok none
  | some l, some _ => .ok (expandBrace? lines line l column unit)

end MultiCaret
