import MultiCaret.KeyedLine
import MultiCaret.Text.Pattern

/-!
# Searching for a property name

The property name in front of the cursor as two searches find it, first for a quoted name and then for a dotted one, each
with blanks up to the cursor.
-/

namespace MultiCaret

namespace Pattern

def blanks : Pattern :=
  many (one isBlank)

def quote : Pattern :=
  one (· == '"')

def name : Pattern :=
  (one isNameStart).andThen (many (one isNameChar))

def dottedName : Pattern :=
  name.andThen (many ((one (· == '.')).andThen name))

end Pattern

/-- A quoted name and the blanks behind it. -/
def quotedPieces : List Pattern :=
  [.quote, .oneOrMore (.one (· != '"')), .quote, .blanks]

/-- A dotted name and the blanks behind it. -/
def dottedPieces : List Pattern :=
  [.dottedName, .blanks]

/-- The property name in front of the cursor that the searches find. -/
def searchProperty? (line : Text) (column : Int) : Option PropertyName :=
  let before := upTo line column
  match search? quotedPieces before with
  | some (start, [_, name, _, blanks]) => some ⟨name, true, start, start + name.length + 2, blanks.length⟩
  | _ =>
    match search? dottedPieces before with
    | some (start, [name, blanks]) => some ⟨name, false, start, start + name.length, blanks.length⟩
    | _ => none

end MultiCaret
