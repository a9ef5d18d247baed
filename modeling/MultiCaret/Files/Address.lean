import MultiCaret.Files.System

/-!
# Addresses of files

The address of a file names its place from the root.  A byte that is not a letter, a digit or one of a few marks is
written as a percent sign and two hexadecimal digits.
-/

namespace MultiCaret

/-- A byte that stands for itself in an address. -/
def isPlainByte (b : UInt8) : Bool :=
  let c := Char.ofNat b.toNat
  b.toNat < 0x80 && (c.isAlphanum || c == '_' || c == '.' || c == '-' || c == '~' || c == '/')

/-- A byte in an address. -/
def addressByte (b : UInt8) : Text :=
  if isPlainByte b then [Char.ofNat b.toNat] else '%' :: (hexadecimal 2 b.toNat).map Char.toUpper

/-- The address of the file that a path leads to. -/
def fileAddress (fs : FileSystem) (path : Text) : Except FileError Text :=
  if path.contains '\x00' then .error .nullInPath
  else
    let place := '/' :: joinWith '/' (fs.absolute (Path.ofText path))
    .ok ("file://".toList ++ (Utf8.encode place).flatMap addressByte)

end MultiCaret
