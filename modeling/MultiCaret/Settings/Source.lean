import MultiCaret.Json.Value
import MultiCaret.Settings.Basic

/-!
# Settings from user data

Users write settings as a JSON object whose keys are dotted names, or objects of objects, or both: the path to a value
is the name of its setting.  If several paths make up the same name the last value counts.  A name that is not known,
or a value that is neither true nor false, is passed over with a warning.
-/

namespace MultiCaret

/-- What is passed over in user data. -/
inductive SettingsWarning where
  | unknown (name : CodeText)
  | notBoolean (name : CodeText) (value : Json)

namespace Settings

mutual

/-- Adds a value to a flat list: under its name, or the fields of an object under their paths from there. -/
def flattenValue (name : CodeText) (flat : List (CodeText × Json)) : Json → List (CodeText × Json)
  | .object fields => flattenFields (name ++ [.char '.']) flat fields
  | .null => Json.setField flat name .null
  | .bool b => Json.setField flat name (.bool b)
  | .int n => Json.setField flat name (.int n)
  | .float x => Json.setField flat name (.float x)
  | .str t => Json.setField flat name (.str t)
  | .list items => Json.setField flat name (.list items)

/-- Adds the fields of an object to a flat list, with the path in front of their keys. -/
def flattenFields (path : CodeText) (flat : List (CodeText × Json)) : List (CodeText × Json) → List (CodeText × Json)
  | [] => flat
  | (key, value) :: rest => flattenFields path (flattenValue (path ++ key) flat value) rest

end

/-- The values of an object by their dotted names, in the order in which the names first occur.  Objects may be nested to
any depth. -/
def flatten (fields : List (CodeText × Json)) : List (CodeText × Json) :=
  flattenFields [] [] fields

/-- Takes over one named value. -/
def takeOver (c : Settings) (name : CodeText) (value : Json) : Settings × List SettingsWarning :=
  match Setting.ofName? name, value with
  | none, _ => (c, [.unknown name])
  | some s, .bool on => (c.set s on, [])
  | some _, v => (c, [.notBoolean name v])

/-- Takes over named values one after another. -/
def takeAll (c : Settings) : List (CodeText × Json) → Settings × List SettingsWarning
  | [] => (c, [])
  | (name, value) :: rest =>
    let (c, first) := c.takeOver name value
    let (c, others) := c.takeAll rest
    (c, first ++ others)

/-- The settings of an object, and what was passed over. -/
def ofFields (fields : List (CodeText × Json)) : Settings × List SettingsWarning :=
  ({} : Settings).takeAll (flatten fields)

/-- The text of the settings as a JSON object, two spaces deep and in the order of `Setting.all`. -/
def toText (c : Settings) : Text :=
  let line (s : Setting) : Text :=
    ' ' :: ' ' :: '"' :: s.name.toList ++ '"' :: ':' :: ' ' :: (if c.get s then "true" else "false").toList
  '\x7b' :: '\n' :: [',', '\n'].intercalate (Setting.all.map line) ++ ['\n', '\x7d']

end Settings

end MultiCaret
