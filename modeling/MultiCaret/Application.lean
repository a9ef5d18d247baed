import MultiCaret.Editor.Keys
import MultiCaret.Files.Address
import MultiCaret.Language

/-!
# The application

The editor on a file: its language and address come from the path of the file, and what it asks for, saving and leaving,
is done here.  What the application asks of the screen around it is listed as calls.
-/

namespace MultiCaret

/-- How loud a note to the user is. -/
inductive Severity where
  | information
  | warning
  | error
deriving DecidableEq

/-- What the application asks of the screen around it. -/
inductive Call where
  | focus (selector : String)
  | exit
  /-- Shows a note, for the given number of seconds if that is not left to the screen. -/
  | notify (message : Text) (severity : Severity) (seconds : Option Nat)
deriving DecidableEq

/-- The editor on a file. -/
structure Application where
  files : FileSystem
  /-- The path of the file as the user gave it, empty for a new text. -/
  filePath : Text
  editor : Editor
  subtitle : Text
  calls : List Call

namespace Application

/-- The name of the application. -/
def title : String :=
  "Smart Keys"

/-- The address of a text that is in no file. -/
def newAddress : String :=
  "untitled:1"

/-- Opens a text as the content of a file. -/
def start (files : FileSystem) (filePath content : Text) (settings : Settings) (indent : IndentOptions) :
    Except FileError Application :=
  let build (uri : String) (language : Text) : Application :=
    ⟨files, filePath, .ofDocument (.ofText content uri language) indent settings, [], []⟩
  if filePath.isEmpty then .ok (build newAddress plainLanguage)
  else (fileAddress files filePath).map fun uri => build (String.ofList uri) (languageOfPath filePath)

/-- Asks something of the screen. -/
def call (a : Application) (c : Call) : Application :=
  { a with calls := a.calls ++ [c] }

/-- Goes on the screen. -/
def mount (a : Application) : Application :=
  { a with subtitle := if a.filePath.isEmpty then "[new]".toList else a.filePath }.call (.focus "#editor")

/-- Writes a text to the file, in directories that are made if they are missing. -/
def writeFile (fs : FileSystem) (path : Path) (t : Text) : FileSystem × Option FileError :=
  match fs.makeDirectories path.parent with
  | (fs, some e) => (fs, some e)
  | (fs, none) =>
    match fs.write path (Utf8.encode t) with
    | .ok fs => (fs, none)
    | .error e => (fs, some e)

/-- Saves a text. -/
def save (a : Application) (t : Text) : Application :=
  if a.filePath.isEmpty then
    a.call (.notify "No file name: start with smartkeys <file>".toList .warning none)
  else
    match writeFile a.files (Path.ofText a.filePath) t with
    | (fs, none) => { a with files := fs }.call (.notify ("Saved: ".toList ++ a.filePath) .information none)
    | (fs, some e) =>
      { a with files := fs }.call (.notify ("Save failed: ".toList ++ e.message) .error (some 6))

/-- Does what the editor asks for. -/
def answer (a : Application) : Message → Application
  | .save t => a.save t
  | .quit => a.call .exit

/-- Does everything that the editor has asked for. -/
def answerAll (a : Application) : Application :=
  a.editor.messages.foldl answer a

/-- Handles the event of a key, and does what the editor asks for. -/
def handleEvent (a : Application) (key : String) (char? : Option Text) : Application :=
  let fresh := { a with calls := [], editor := { a.editor with messages := [] } }
  { fresh with editor := (fresh.editor.handleEvent key char?).editor }.answerAll

end Application

end MultiCaret
