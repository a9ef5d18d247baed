import MultiCaret.Text.CodePoint
import MultiCaret.Text.Numeral
import MultiCaret.Text.Printable

/-!
# Quoted text

How a text is quoted in a message: between single quotes, or between double quotes if it holds a single quote and no
double quote.  The quote and the backslash are escaped by a backslash, and what cannot be printed by its code; a surrogate
without a partner never can.
-/

namespace MultiCaret

/-- The quote that a text gets. -/
def quoteFor (t : CodeText) : Char :=
  if t.contains (.char '\'') && !t.contains (.char '"') then '"' else '\''

/-- A character between the given quotes. -/
def escapeChar (quote c : Char) : Text :=
  if c = quote ∨ c = '\\' then ['\\', c]
  else if c = '\n' then ['\\', 'n']
  else if c = '\r' then ['\\', 'r']
  else if c = '\t' then ['\\', 't']
  else if isPrintable c then [c]
  else if c.toNat < 0x100 then '\\' :: 'x' :: hexadecimal 2 c.toNat
  else if c.toNat < 0x10000 then '\\' :: 'u' :: hexadecimal 4 c.toNat
  else '\\' :: 'U' :: hexadecimal 8 c.toNat

/-- A code point between the given quotes. -/
def escapeCodePoint (quote : Char) : CodePoint → Text
  | .char c => escapeChar quote c
  | .surrogate n => '\\' :: 'u' :: hexadecimal 4 (CodePoint.surrogate n).value

/-- The text of code points in quotes. -/
def quotedCodes (t : CodeText) : Text :=
  let q := quoteFor t
  q :: t.flatMap (escapeCodePoint q) ++ [q]

/-- The text in quotes. -/
def quoted (t : Text) : Text :=
  quotedCodes (codeText t)

-- a text with a single quote stands between double ones
example : quoted ['i', 't', '\'', 's', '\n'] = ['"', 'i', 't', '\'', 's', '\\', 'n', '"'] := by
  decide

end MultiCaret
