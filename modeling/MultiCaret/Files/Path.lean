import MultiCaret.Text.Split

/-!
# Paths

A path is a list of names, from the root of the file system or from the current directory.  Empty names and single dots
say nothing and are left out when a path is read; double dots are kept, because what they mean depends on the
directories that are there.
-/

namespace MultiCaret

/-- Where a path starts: at the current directory, or at the root, which may also be written with two slashes. -/
inductive PathStart where
  | here
  | top
  | doubled
deriving DecidableEq

/-- A path, name by name. -/
structure Path where
  start : PathStart
  names : List Text
deriving DecidableEq

/-- The slashes that a path starts with. -/
def PathStart.text : PathStart → Text
  | .here => []
  | .top => ['/']
  | .doubled => ['/', '/']

/-- The place in a name where its suffix starts: the last dot, unless the name starts or ends with it. -/
def suffixStart? (name : Text) : Option Nat :=
  let behind := (name.reverse.takeWhile (· != '.')).length
  if name.contains '.' ∧ 0 < behind ∧ behind + 1 < name.length then some (name.length - behind - 1) else none

/-- The suffix of a name, with its dot. -/
def nameSuffix (name : Text) : Text :=
  match suffixStart? name with
  | some i => name.drop i
  | none => []

/-- A name with another suffix in place of its own. -/
def withNameSuffix (name suffix : Text) : Text :=
  match suffixStart? name with
  | some i => name.take i ++ suffix
  | none => name ++ suffix

namespace Path

/-- The parent directory. -/
def dotdot : Text :=
  ['.', '.']

/-- Reads a path. -/
def ofText (t : Text) : Path :=
  let start := match t with
    | '/' :: '/' :: '/' :: _ => .top
    | '/' :: '/' :: _ => .doubled
    | '/' :: _ => .top
    | _ => .here
  ⟨start, (splitOn '/' t).filter fun n => n != [] && n != ['.']⟩

/-- The path as it is written.  The current directory is a dot. -/
def text (p : Path) : Text :=
  if p.start = .here ∧ p.names = [] then ['.'] else p.start.text ++ joinWith '/' p.names

/-- The last name, if there is one. -/
def name? (p : Path) : Option Text :=
  p.names.getLast?

/-- The path of the directory around it. -/
def parent (p : Path) : Path :=
  { p with names := p.names.dropLast }

/-- The suffix of the last name, with its dot. -/
def suffix (p : Path) : Text :=
  match p.name? with
  | some n => nameSuffix n
  | none => []

/-- The path with another suffix, if it has a name. -/
def withSuffix? (p : Path) (suffix : Text) : Option Path :=
  p.name?.map fun n => { p with names := p.names.dropLast ++ [withNameSuffix n suffix] }

/-- The directories from the root on when double dots go back by one name. -/
def normalNames (names : List Text) : List Text :=
  names.foldl (fun done n => if n = dotdot then done.dropLast else done ++ [n]) []

end Path

end MultiCaret
