import MultiCaret.Files.Path

/-!
# Language of a file

The language of a file is told by the suffix of its name, in any case.
-/

namespace MultiCaret

/-- The language of a text about which nothing is known. -/
def plainLanguage : Text :=
  "plaintext".toList

/-- The suffixes that tell a language. -/
def languageSuffixes : List (Text × Text) :=
  [(".json".toList, "json".toList), (".jsonc".toList, "jsonc".toList), (".code-workspace".toList, "jsonc".toList)]

/-- The lower case of a letter of ASCII; the sign of the kelvin is a capital K. -/
def lowerAscii (c : Char) : Char :=
  if c = '\u212a' then 'k' else c.toLower

/-- The language of a file with the given path. -/
def languageOfPath (path : Text) : Text :=
  (languageSuffixes.lookup ((Path.ofText path).suffix.map lowerAscii)).getD plainLanguage

end MultiCaret
