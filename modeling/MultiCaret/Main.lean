import MultiCaret.CommandLine.Run
import MultiCaret.Editor.Screen

/-!
# The program

Reads the files that the command line names, runs the command line on them, and then takes one key a line from the
input, a name such as `enter` or a single character, and shows the screen after each of them.  Files that have changed
are written back.  The numbers of rows and columns are those of a plain terminal.
-/

namespace MultiCaret

/-- The size of the screen. -/
def screenWidth : Int := 80

/-- The height of the screen. -/
def screenHeight : Int := 24

/-- The files that a command line can touch. -/
def namedFiles (configHome : Text) (words : List Text) : List Path :=
  match Arguments.ofTexts words with
  | .error _ => []
  | .ok a =>
    let config := match a.config with
      | .value (some name) => Path.ofText name
      | _ => Settings.defaultPath configHome
    [Path.ofText a.file, config] ++ (a.logFile.map Path.ofText).toList

/-- The content of a file, if it can be read. -/
def readBytes? (path : Path) : IO (Option Bytes) := do
  try
    let content ← IO.FS.readBinFile (String.ofList path.text)
    return some content.toList
  catch _ => return none

/-- Puts a file into the file system, with the directories around it. -/
def addFile (fs : FileSystem) (path : Path) (content : Bytes) : FileSystem :=
  match (fs.makeDirectories path.parent).1.write path content with
  | .ok fs => fs
  | .error _ => fs

/-- The file system that holds the given files. -/
def readFiles (here : Text) (paths : List Path) : IO FileSystem := do
  let mut fs := (FileSystem.makeDirectories ⟨[], []⟩ (Path.ofText here)).1
  fs := { fs with here := (Path.ofText here).names }
  for path in paths do
    match ← readBytes? path with
    | some content => fs := addFile fs path content
    | none => pure ()
  return fs

/-- Writes the files that differ from those before. -/
def writeChanged (before after : FileSystem) : IO Unit := do
  for (place, e) in after.entries do
    let path := String.ofList ('/' :: joinWith '/' place)
    if before.entry? place != some e then
      match e with
      | .directory => IO.FS.createDirAll path
      | .file content => IO.FS.writeBinFile path (ByteArray.mk content.toArray)

/-- Prints a text. -/
def printText (out : IO.FS.Stream) (t : Text) : IO Unit := do
  out.putStr (String.ofList t)
  out.flush

/-- Shows the screen, with the notes of the application below it. -/
def showScreen (a : Application) : IO Application := do
  let out ← IO.getStdout
  let (e, screen) := a.editor.draw screenWidth screenHeight
  match screen with
  | .ok s => printText out (s.plain ++ ['\n'])
  | .error f => printText out (f.message ++ ['\n'])
  for c in a.calls do
    match c with
    | .notify message .. => printText out (message ++ ['\n'])
    | _ => pure ()
  return { a with editor := e }

/-- Takes keys from the input until the application is left. -/
partial def keyLoop (a : Application) : IO Unit := do
  let a ← showScreen a
  let line ← (← IO.getStdin).getLine
  if line.isEmpty then return ()
  let next := a.handleEvent (String.ofList (line.toList.filter fun c => c != '\n')) none
  writeChanged a.files next.files
  if next.calls.contains .exit then return ()
  keyLoop next

end MultiCaret

open MultiCaret in
/-- The program. -/
def main (words : List String) : IO UInt32 := do
  let here ← IO.currentDir
  let home := (← IO.getEnv "HOME").getD ""
  let configHome := (← IO.getEnv "XDG_CONFIG_HOME").getD (home ++ "/.config")
  let texts := words.map String.toList
  let fs ← readFiles here.toString.toList (namedFiles configHome.toList texts)
  let run := CommandRun.ofTexts fs configHome.toList texts
  writeChanged fs run.files
  printText (← IO.getStdout) run.stdout
  printText (← IO.getStderr) run.stderr
  match run.launch with
  | .exit status => return UInt32.ofNat status
  | .failed e =>
    printText (← IO.getStderr) (e.message ++ ['\n'])
    return 1
  | .ready a =>
    keyLoop a.mount
    return 0
