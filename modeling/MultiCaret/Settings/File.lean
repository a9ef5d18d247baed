import MultiCaret.Files.System
import MultiCaret.Json.Reader
import MultiCaret.Settings.Source

/-!
# The settings file

Settings are kept in a JSON file.  A file that is not there, that the system does not let read, or that holds no JSON
object stands for the default settings; other trouble with it is an error (`SettingsReadError`).  A new file is written
under another name first and then moved over the old one.
-/

namespace MultiCaret

/-- What the user is told about settings. -/
inductive SettingsNotice where
  /-- Some user data is passed over. -/
  | passedOver (w : SettingsWarning)
  /-- The file cannot be read. -/
  | unreadable (path : Path) (e : FileError)
  /-- The text of the file is no JSON. -/
  | malformed (path : Path) (source : Text) (e : JsonError)
  /-- The file holds something other than an object. -/
  | noObject (path : Path)
  /-- The file cannot be written. -/
  | unsaved (path : Path) (e : FileError)

/-- The notice in words. -/
def SettingsNotice.message : SettingsNotice → Text
  | .passedOver (.unknown name) => "Unknown setting ".toList ++ quotedCodes name ++ ", ignoring".toList
  | .passedOver (.notBoolean name value) =>
    "Setting ".toList ++ quotedCodes name ++ " must be true or false, got ".toList ++ value.display ++
      "; ignoring".toList
  | .unreadable path e => "Could not load settings from ".toList ++ path.text ++ ": ".toList ++ e.message
  | .malformed path source e =>
    "Could not load settings from ".toList ++ path.text ++ ": ".toList ++ e.message source
  | .noObject path => "Settings file ".toList ++ path.text ++ " is not a JSON object, ignoring".toList
  | .unsaved path e => "Could not save settings to ".toList ++ path.text ++ ": ".toList ++ e.message

/-- Trouble with a settings file that is not passed over. -/
inductive SettingsReadError where
  /-- It cannot be found out whether the file is there. -/
  | file (e : FileError)
  /-- The file holds no text. -/
  | notText (e : Utf8Error)
  /-- A number in the file is too large. -/
  | tooManyDigits (count : Nat)
  /-- A list, or an object, in the file is nested too deeply. -/
  | tooDeep (isObject : Bool)
deriving DecidableEq

/-- The error in words. -/
def SettingsReadError.message : SettingsReadError → Text
  | .file e => e.message
  | .notText e => e.message
  | .tooManyDigits count => (JsonError.tooManyDigits count).message []
  | .tooDeep isObject => (JsonError.tooDeep isObject).message []

/-- Why settings are not even tried to be written. -/
inductive SettingsWriteError where
  /-- The path has no last name. -/
  | unnamed (path : Path)
  | nullInPath
deriving DecidableEq

/-- The error in words. -/
def SettingsWriteError.message : SettingsWriteError → Text
  | .unnamed path => "PosixPath(".toList ++ quoted path.text ++ ") has an empty name".toList
  | .nullInPath => FileError.nullInPath.message

/-- The files after settings were written, whether they are saved, and what the user is told. -/
structure SettingsSaved where
  files : FileSystem
  saved : Except SettingsWriteError Bool
  notices : List SettingsNotice

namespace Settings

/-- Where the settings are by default, below the directory for the configuration of programs. -/
def defaultPath (configHome : Text) : Path :=
  let home := Path.ofText configHome
  { home with names := home.names ++ ["smartkeys".toList, "settings.json".toList] }

/-- The settings that a text holds, when it was read from a file. -/
def ofFileText (path : Path) (t : Text) : Except SettingsReadError (Settings × List SettingsNotice) :=
  match Json.read t with
  | .error (.tooManyDigits count) => .error (.tooManyDigits count)
  | .error (.tooDeep isObject) => .error (.tooDeep isObject)
  | .error e => .ok ({}, [.malformed path t e])
  | .ok (.object fields) =>
    let (c, warnings) := ofFields fields
    .ok (c, warnings.map .passedOver)
  | .ok _ => .ok ({}, [.noObject path])

/-- Reads the settings from a file. -/
def load (fs : FileSystem) (path : Path) : Except SettingsReadError (Settings × List SettingsNotice) :=
  match fs.isThere path with
  | .error e => .error (.file e)
  | .ok false => .ok ({}, [])
  | .ok true =>
    match fs.read path with
    | .error e => .ok ({}, [.unreadable path e])
    | .ok bytes =>
      match Utf8.decode bytes with
      | .error e => .error (.notText e)
      | .ok t => ofFileText path (universalNewlines t)

/-- Gives up writing a file: what was written under the other name is taken away again. -/
def giveUp (fs : FileSystem) (path temporary : Path) : FileError → SettingsSaved
  | .nullInPath => ⟨fs, .error .nullInPath, []⟩
  | e => ⟨fs.removeFile temporary, .ok false, [.unsaved path e]⟩

/-- Writes the settings to a file. -/
def save (c : Settings) (fs : FileSystem) (path : Path) : SettingsSaved :=
  match path.withSuffix? ".tmp".toList with
  | none => ⟨fs, .error (.unnamed path), []⟩
  | some temporary =>
    match fs.makeDirectories path.parent with
    | (fs, some e) => giveUp fs path temporary e
    | (fs, none) =>
      match fs.write temporary (Utf8.encode c.toText) with
      | .error e => giveUp fs path temporary e
      | .ok written =>
        match written.rename temporary path with
        | .error e => giveUp written path temporary e
        | .ok moved => ⟨moved, .ok true, []⟩

end Settings

end MultiCaret
