import MultiCaret.Files.Path
import MultiCaret.Text.Quoted
import MultiCaret.Text.Utf8

/-!
# Files

A file system without links: which places hold a file or a directory.  A path is followed name by name, and every name
before the last one must be that of a directory.  An operation that fails changes nothing, except that the directories
made on the way to a new one stay (`FileSystem.makeDirectories`).
-/

namespace MultiCaret

/-- Why a file operation fails. -/
inductive FileFault where
  | noEntry
  | busy
  | alreadyThere
  | notDirectory
  | isDirectory
  | nameTooLong
deriving DecidableEq

/-- The number of the fault. -/
def FileFault.number : FileFault → Nat
  | .noEntry => 2
  | .busy => 16
  | .alreadyThere => 17
  | .notDirectory => 20
  | .isDirectory => 21
  | .nameTooLong => 36

/-- The fault in words. -/
def FileFault.text : FileFault → String
  | .noEntry => "No such file or directory"
  | .busy => "Device or resource busy"
  | .alreadyThere => "File exists"
  | .notDirectory => "Not a directory"
  | .isDirectory => "Is a directory"
  | .nameTooLong => "File name too long"

/-- Why an operation on paths fails. -/
inductive FileError where
  /-- The system refuses the operation on the path, or from the path to the other one. -/
  | refused (fault : FileFault) (path : Text) (other : Option Text)
  /-- A path holds a character that ends every path for the system. -/
  | nullInPath
deriving DecidableEq

/-- The error in words. -/
def FileError.message : FileError → Text
  | .refused fault path other =>
    "[Errno ".toList ++ natural fault.number ++ "] ".toList ++ fault.text.toList ++ ": ".toList ++ quoted path ++
      (match other with
        | some p => " -> ".toList ++ quoted p
        | none => [])
  | .nullInPath => "embedded null byte".toList

/-- What a place holds. -/
inductive Entry where
  | file (content : Bytes)
  | directory
deriving DecidableEq

/-- A place, as the names from the root to it. -/
abbrev Place := List Text

/-- The places that hold something, and the current directory. -/
structure FileSystem where
  entries : List (Place × Entry)
  here : Place
deriving DecidableEq

/-- The largest number of bytes in a name. -/
def maxNameBytes : Nat := 255

/-- The largest number of bytes in a path. -/
def maxPathBytes : Nat := 4095

namespace FileSystem

/-- What a place holds.  The root is a directory. -/
def entry? (fs : FileSystem) (place : Place) : Option Entry :=
  if place = [] then some .directory else fs.entries.lookup place

/-- Puts something at a place, instead of what is there. -/
def put (fs : FileSystem) (place : Place) (e : Entry) : FileSystem :=
  { fs with entries := (fs.entries.filter fun x => x.1 != place) ++ [(place, e)] }

/-- Takes away what a place holds. -/
def remove (fs : FileSystem) (place : Place) : FileSystem :=
  { fs with entries := fs.entries.filter fun x => x.1 != place }

/-- Follows names from a place. -/
def walk (fs : FileSystem) (place : Place) : List Text → Except FileFault (Place × Option Entry)
  | [] => .ok (place, fs.entry? place)
  | n :: ns =>
    match fs.entry? place with
    | none => .error .noEntry
    | some (.file _) => .error .notDirectory
    | some .directory =>
      if n = Path.dotdot then fs.walk place.dropLast ns
      else if maxNameBytes < (Utf8.encode n).length then .error .nameTooLong
      else fs.walk (place ++ [n]) ns

/-- Fails on a path. -/
def refuse {α : Type} (p : Path) (fault : FileFault) : Except FileError α :=
  .error (.refused fault p.text none)

/-- The place of a path and what it holds, for which all directories on the way must be there. -/
def find (fs : FileSystem) (p : Path) : Except FileError (Place × Option Entry) :=
  if p.text.contains '\x00' then .error .nullInPath
  else if maxPathBytes < (Utf8.encode p.text).length then refuse p .nameTooLong
  else
    match fs.walk (if p.start = .here then fs.here else []) p.names with
    | .ok found => .ok found
    | .error fault => refuse p fault

/-- What a path leads to, if anything.  That a directory on the way is missing, or is none, and that a path is
impossible, says only that nothing is there. -/
def look (fs : FileSystem) (p : Path) : Except FileError (Option Entry) :=
  match fs.find p with
  | .ok found => .ok found.2
  | .error .nullInPath => .ok none
  | .error (.refused .noEntry ..) => .ok none
  | .error (.refused .notDirectory ..) => .ok none
  | .error e => .error e

/-- Is anything there? -/
def isThere (fs : FileSystem) (p : Path) : Except FileError Bool :=
  (fs.look p).map Option.isSome

/-- Is a directory there? -/
def isDirectoryAt (fs : FileSystem) (p : Path) : Except FileError Bool :=
  (fs.look p).map fun e => e == some .directory

/-- The content of a file. -/
def read (fs : FileSystem) (p : Path) : Except FileError Bytes := do
  match ← fs.find p with
  | (_, none) => refuse p .noEntry
  | (_, some .directory) => refuse p .isDirectory
  | (_, some (.file content)) => .ok content

/-- The place of a path where a file can be written, and what the file holds so far. -/
def findFile (fs : FileSystem) (p : Path) : Except FileError (Place × Bytes) := do
  match ← fs.find p with
  | (_, some .directory) => refuse p .isDirectory
  | (place, some (.file content)) => .ok (place, content)
  | (place, none) => .ok (place, [])

/-- Writes a file in place of the one that is there. -/
def write (fs : FileSystem) (p : Path) (content : Bytes) : Except FileError FileSystem :=
  (fs.findFile p).map fun (place, _) => fs.put place (.file content)

/-- Writes behind the end of a file, which is made if it is not there. -/
def append (fs : FileSystem) (p : Path) (content : Bytes) : Except FileError FileSystem :=
  (fs.findFile p).map fun (place, old) => fs.put place (.file (old ++ content))

/-- Makes a directory. -/
def makeDirectory (fs : FileSystem) (p : Path) : Except FileError FileSystem := do
  match ← fs.find p with
  | (_, some _) => refuse p .alreadyThere
  | (place, none) => .ok (fs.put place .directory)

/-- Accepts a failure to make a directory if there is one already. -/
def unlessDirectory (fs : FileSystem) (p : Path) (e : FileError) : Option FileError :=
  match e with
  | .nullInPath => some e
  | .refused .. =>
    match fs.isDirectoryAt p with
    | .ok true => none
    | .ok false => some e
    | .error e => some e

/-- Makes a directory and those around it that are missing; `names` are its names from the last one backwards. -/
def makeDirectoriesAt (fs : FileSystem) (start : PathStart) (names : List Text) : FileSystem × Option FileError :=
  let p : Path := ⟨start, names.reverse⟩
  match fs.makeDirectory p with
  | .ok fs => (fs, none)
  | .error e =>
    match e, names with
    | .refused .noEntry .., _ :: around =>
      match fs.makeDirectoriesAt start around with
      | (fs, some e) => (fs, some e)
      | (fs, none) =>
        match fs.makeDirectory p with
        | .ok fs => (fs, none)
        | .error (.refused .noEntry path other) => (fs, some (.refused .noEntry path other))
        | .error e => (fs, fs.unlessDirectory p e)
    | .refused .noEntry .., [] => (fs, some e)
    | _, _ => (fs, fs.unlessDirectory p e)

/-- Makes a directory and those around it that are missing, unless it is there.  When this fails halfway, the
directories that were made stay. -/
def makeDirectories (fs : FileSystem) (p : Path) : FileSystem × Option FileError :=
  fs.makeDirectoriesAt p.start p.names.reverse

/-- Moves a file over another path. -/
def rename (fs : FileSystem) (p q : Path) : Except FileError FileSystem :=
  let fail (fault : FileFault) : Except FileError FileSystem := .error (.refused fault p.text (some q.text))
  match fs.find p, fs.find q with
  | .error (.refused fault ..), _ => fail fault
  | _, .error (.refused fault ..) => fail fault
  | .error .nullInPath, _ => .error .nullInPath
  | _, .error .nullInPath => .error .nullInPath
  | .ok (source, e?), .ok (target, old?) =>
    if q.name? = some Path.dotdot then fail .busy
    else
      match e?, old? with
      | none, _ => fail .noEntry
      | some (.file _), some .directory => fail .isDirectory
      | some e, _ => if source = target then .ok fs else .ok ((fs.remove source).put target e)

/-- Takes away a file.  Nothing happens if it cannot be done. -/
def removeFile (fs : FileSystem) (p : Path) : FileSystem :=
  match fs.find p with
  | .ok (place, some (.file _)) => fs.remove place
  | _ => fs

/-- Follows a path to a place without looking at what is there. -/
def absolute (fs : FileSystem) (p : Path) : Place :=
  Path.normalNames ((if p.start = .here then fs.here else []) ++ p.names)

/-- The path from the root to the place that a path leads to when nothing is looked at. -/
def absolutePath (fs : FileSystem) (p : Path) : Path :=
  ⟨if p.start = .doubled then .doubled else .top, fs.absolute p⟩

/-- A directory that holds nothing. -/
def isEmptyDirectory (fs : FileSystem) (place : Place) : Bool :=
  !fs.entries.any fun x => decide (place.length < x.1.length) && place.isPrefixOf x.1

/-- The files and the empty directories below the current directory, by their paths from there. -/
def listing (fs : FileSystem) : List (Text × Entry) :=
  fs.entries.filterMap fun (place, e) =>
    if fs.here.isPrefixOf place ∧ fs.here.length < place.length ∧ (e ≠ .directory ∨ fs.isEmptyDirectory place) then
      some (joinWith '/' (place.drop fs.here.length), e)
    else none

end FileSystem

end MultiCaret
