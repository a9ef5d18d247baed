import MultiCaret.Decimal.Shortest
import MultiCaret.Text.Quoted

/-!
# JSON values

A JSON value keeps the order in which the fields of an object were written.  A field that is written twice stays at its
first place and has its last value (`Json.setField`).
-/

namespace MultiCaret

/-- A JSON value.  Whole numbers are exact, all others are rounded to double precision. -/
inductive Json where
  | null
  | bool (b : Bool)
  | int (n : Int)
  | float (x : Binary64)
  | str (t : CodeText)
  | list (items : List Json)
  | object (fields : List (CodeText × Json))

namespace Json

/-- Sets a field: in its place if the name is there already, behind all others if not. -/
def setField {α : Type} (fields : List (CodeText × α)) (name : CodeText) (value : α) : List (CodeText × α) :=
  match fields with
  | [] => [(name, value)]
  | (n, v) :: rest => if n = name then (n, value) :: rest else (n, v) :: setField rest name value

/-- The kinds of values that messages tell apart. -/
inductive Kind where
  | null
  | bool
  | int
  | float
  | str
  | list
  | object
deriving DecidableEq

/-- The kind of a value. -/
def kind : Json → Kind
  | .null => .null
  | .bool _ => .bool
  | .int _ => .int
  | .float _ => .float
  | .str _ => .str
  | .list _ => .list
  | .object _ => .object

mutual

/-- The value as a message shows it. -/
def display : Json → Text
  | .null => "None".toList
  | .bool b => (if b then "True" else "False").toList
  | .int n => numeral n
  | .float x => x.text
  | .str t => quotedCodes t
  | .list items => '[' :: [',', ' '].intercalate (displayItems items) ++ [']']
  | .object fields => '\x7b' :: [',', ' '].intercalate (displayFields fields) ++ ['\x7d']

/-- The items of a list as a message shows them. -/
def displayItems : List Json → List Text
  | [] => []
  | v :: rest => display v :: displayItems rest

/-- The fields of an object as a message shows them. -/
def displayFields : List (CodeText × Json) → List Text
  | [] => []
  | (name, v) :: rest => (quotedCodes name ++ ':' :: ' ' :: display v) :: displayFields rest

end

end Json

end MultiCaret
