import MultiCaret.Text.Blank
import MultiCaret.Text.Cut
import MultiCaret.Text.Suffix

/-!
# Lines of keys and values

Punctuation of a line such as `"name": 3`: does a value end here, so that a comma is missing behind it, and what is the
property name in front of the cursor?  A property name is a quoted text or a dotted name, with blanks allowed between
it and the cursor; a dotted name is taken as long as the text allows.  None of this looks into string literals.
-/

namespace MultiCaret

/-- The languages whose lines are keys and values. -/
def structuredLanguages : List String :=
  ["json", "jsonc"]

/-- Is it the name of a language whose lines are keys and values? -/
def isStructured (language : Text) : Bool :=
  structuredLanguages.any fun l => l.toList == language

/-- Does a complete value end here: a string, an object, an array, a number or a keyword? -/
def endsWithValue (t : Text) : Bool :=
  (match t.getLast? with
    | some c => c == '"' || c == '\x7d' || c == ']' || c.isDigit
    | none => false) ||
  ["true".toList, "false".toList, "null".toList].any fun k => k.isSuffixOf t

/-- Does the line end with the value of a key and lack the comma behind it? -/
def lacksTerminator (line : Text) : Bool :=
  let t := trim line
  t.getLast? != some ',' && t.contains ':' && endsWithValue t

/-- The column where the comma belongs: behind the last character that is no blank. -/
def terminatorColumn (line : Text) : Nat :=
  (trimEnd line).length

/-- Is the next thing behind the column a separator? -/
def separatorFollows (line : Text) (column : Int) : Bool :=
  (trim (onward line column)).head? == some ':'

/-- A property name in front of the cursor. -/
structure PropertyName where
  name : Text
  quoted : Bool
  /-- The column of its first character, a quote included. -/
  start : Nat
  /-- The column behind its last character, a quote included. -/
  stop : Nat
  /-- The number of blanks between it and the cursor. -/
  trailing : Nat
deriving DecidableEq

/-- A character that may start a name. -/
def isNameStart (c : Char) : Bool :=
  c.isAlpha || c == '_' || c == '$'

/-- A character that may go on with a name. -/
def isNameChar (c : Char) : Bool :=
  c.isAlphanum || c == '_' || c == '$'

/-- May the text follow a name, so that both make up a dotted name: name characters, then dots each followed by a
name? -/
def continuesName : Text → Bool
  | [] => true
  | '.' :: c :: cs => isNameStart c && continuesName cs
  | c :: cs => isNameChar c && continuesName cs

/-- Is the text a name, or several with dots between them? -/
def isDottedName : Text → Bool
  | [] => false
  | c :: cs => isNameStart c && continuesName cs

/-- The quoted text at the end, without its quotes: not empty and without a quote inside. -/
def quotedAtEnd? (t : Text) : Option Text :=
  match t.reverse with
  | '"' :: rest =>
    match rest.span (· != '"') with
    | ([], _) => none
    | (_, []) => none
    | (name, _ :: _) => some name.reverse
  | _ => none

/-- The longest dotted name at the end. -/
def dottedAtEnd? (t : Text) : Option Text :=
  (suffixes t).find? isDottedName

/-- The property name in front of the cursor. -/
def propertyBefore? (line : Text) (column : Int) : Option PropertyName :=
  let before := upTo line column
  let core := trimEnd before
  let trailing := before.length - core.length
  match quotedAtEnd? core with
  | some name => some ⟨name, true, core.length - name.length - 2, core.length, trailing⟩
  | none =>
    match dottedAtEnd? core with
    | some name => some ⟨name, false, core.length - name.length, core.length, trailing⟩
    | none => none

end MultiCaret
