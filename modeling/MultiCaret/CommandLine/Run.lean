import MultiCaret.Application
import MultiCaret.CommandLine.Arguments
import MultiCaret.Settings.File

/-!
# The command line

From the words of the command line to the application on the screen: the arguments are read, the log is opened, the
file and the settings are read, and the application is built.  Each of these steps may end the program, with a message
and a status, or with an error that nobody takes care of.
-/

namespace MultiCaret

/-- A value that the program cannot do without. -/
inductive MissingValue where
  | settingsPath
  | tabSize
  | logLevel
deriving DecidableEq

/-- What is said when the value is missing. -/
def MissingValue.message : MissingValue → String
  | .settingsPath => "expected str, bytes or os.PathLike object, not list"
  | .tabSize => "'<' not supported between instances of 'list' and 'int'"
  | .logLevel => "'list' object has no attribute 'upper'"

/-- An error that nobody takes care of. -/
inductive Uncaught where
  | file (e : FileError)
  | settings (e : SettingsReadError)
  | missing (v : MissingValue)
deriving DecidableEq

/-- The error in words. -/
def Uncaught.message : Uncaught → Text
  | .file e => e.message
  | .settings e => e.message
  | .missing v => v.message.toList

/-- How the program ends before the application is on the screen, or the application itself. -/
inductive Launch where
  | exit (status : Nat)
  | failed (e : Uncaught)
  | ready (a : Application)

/-- What the command line came to: the files, what was written, and how far the log has been opened. -/
structure CommandRun where
  files : FileSystem
  stdout : Text
  stderr : Text
  logLevel : Option LogLevel
  launch : Launch

namespace CommandRun

/-- How the program is called. -/
def usage : Text :=
  ("usage: smartkeys [-h] [--config CONFIG] [--tab-size TAB_SIZE] [--tabs]\n" ++
    "                 [--log-level \x7bdebug,info,warning,error\x7d]\n" ++
    "                 [--log-file LOG_FILE]\n" ++
    "                 [file]\n").toList

/-- What the program does and what its options mean. -/
def help : Text :=
  usage ++
    ("\nText editor with smart End, Backspace and Enter\n\n" ++
      "positional arguments:\n" ++
      "  file                  file to open\n\n" ++
      "options:\n" ++
      "  -h, --help            show this help message and exit\n" ++
      "  --config CONFIG       settings JSON file (default: user config directory)\n" ++
      "  --tab-size TAB_SIZE   indent width in spaces (default: 4)\n" ++
      "  --tabs                indent with tab characters instead of spaces\n" ++
      "  --log-level \x7bdebug,info,warning,error\x7d\n" ++
      "  --log-file LOG_FILE   write log records to this file\n").toList

/-- The message that ends the program when the command line is wrong. -/
def usageError (message : Text) : Text :=
  usage ++ "smartkeys: error: ".toList ++ message ++ ['\n']

/-- The line of a notice in the log, without the time that stands in front of it there.  All notices are warnings. -/
def logLine (n : SettingsNotice) : Text :=
  '[' :: LogLevel.warning.label.toList ++ "] smartkeys.config: ".toList ++ n.message ++ ['\n']

/-- The log: a file that takes events from a level on, or the error output, which takes warnings.  Only what is told
about settings goes into it here.  Left out are what the keys tell about their own work, below the level of a warning, and
that a text could not be saved, of which the user gets a note. -/
inductive Log where
  | errorOutput
  | file (path : Path) (level : LogLevel)

/-- Opens the log.  Its file is made if it is not there. -/
def openLog (fs : FileSystem) (a : Arguments) : Except Uncaught (FileSystem × Log) :=
  match a.logFile, a.logLevel with
  | none, _ => .ok (fs, .errorOutput)
  | some [], _ => .ok (fs, .errorOutput)
  | some _, .nothing => .error (.missing .logLevel)
  | some name, .value level =>
    let path := fs.absolutePath (Path.ofText name)
    match fs.append path [] with
    | .ok fs => .ok (fs, .file path level)
    | .error e => .error (.file e)

/-- Writes notices to the log.  Gives the files and what was written to the error output. -/
def Log.write (fs : FileSystem) (notices : List SettingsNotice) : Log → FileSystem × Text
  | .errorOutput => (fs, notices.flatMap fun n => n.message ++ ['\n'])
  | .file path level =>
    if level.gravity ≤ LogLevel.warning.gravity then
      match fs.append path (Utf8.encode (notices.flatMap logLine)) with
      | .ok fs => (fs, [])
      | .error _ => (fs, [])
    else (fs, [])

/-- Why a file cannot be opened. -/
inductive OpenError where
  | file (e : FileError)
  | notText (e : Utf8Error)

/-- The reason in words. -/
def OpenError.message : OpenError → Text
  | .file e => e.message
  | .notText e => e.message

/-- The text of a file, empty if there is no file. -/
def readFile (fs : FileSystem) (path : Path) : Except OpenError Text :=
  match fs.isThere path with
  | .error e => .error (.file e)
  | .ok false => .ok []
  | .ok true =>
    match fs.read path with
    | .error e => .error (.file e)
    | .ok bytes =>
      match Utf8.decode bytes with
      | .error e => .error (.notText e)
      | .ok t => .ok (universalNewlines t)

/-- Builds the application from the text of the file and the settings. -/
def start (fs : FileSystem) (a : Arguments) (tabSize : Int) (content : Text) (settings : Settings) : Launch :=
  match Application.start fs a.file content settings ⟨tabSize, !a.tabs⟩ with
  | .ok app => .ready app
  | .error e => .failed (.file e)

/-- The level from which on the log takes events, if it is a file. -/
def Log.level? : Log → Option LogLevel
  | .errorOutput => none
  | .file _ level => some level

/-- Reads the settings, when the file has been read. -/
def runOpened (fs : FileSystem) (configHome : Text) (a : Arguments) (log : Log) (tabSize : Int) (content : Text) :
    CommandRun :=
  match a.config with
  | .nothing => ⟨fs, [], [], log.level?, .failed (.missing .settingsPath)⟩
  | .value name =>
    match Settings.load fs ((name.map Path.ofText).getD (Settings.defaultPath configHome)) with
    | .error e => ⟨fs, [], [], log.level?, .failed (.settings e)⟩
    | .ok (settings, notices) =>
      let (fs, shown) := log.write fs notices
      ⟨fs, [], shown, log.level?, start fs a tabSize content settings⟩

/-- Reads the file and the settings, when the log is open. -/
def runLogged (fs : FileSystem) (configHome : Text) (a : Arguments) (log : Log) : CommandRun :=
  match a.tabSize with
  | .nothing => ⟨fs, [], [], log.level?, .failed (.missing .tabSize)⟩
  | .value tabSize =>
    if tabSize < 1 then ⟨fs, [], usageError "--tab-size must be at least 1".toList, log.level?, .exit 2⟩
    else
      match (if a.file.isEmpty then .ok [] else readFile fs (Path.ofText a.file)) with
      | .error e => ⟨fs, [], "smartkeys: ".toList ++ e.message ++ ['\n'], log.level?, .exit 1⟩
      | .ok content => runOpened fs configHome a log tabSize content

/-- Runs the command line with the given words. -/
def ofTexts (fs : FileSystem) (configHome : Text) (ts : List Text) : CommandRun :=
  match Arguments.ofTexts ts with
  | .error .help => ⟨fs, help, [], none, .exit 0⟩
  | .error (.wrong message) => ⟨fs, [], usageError message, none, .exit 2⟩
  | .ok a =>
    match openLog fs a with
    | .error e => ⟨fs, [], [], none, .failed e⟩
    | .ok (fs, log) => runLogged fs configHome a log

end CommandRun

end MultiCaret
