import MultiCaret.Text.Numeral

/-!
# Text as bytes

UTF-8: the bytes of a text, and the text of some bytes if they are well formed.  Reading stops at the first ill-formed
sequence and tells where it is: at a byte that starts no character, at a byte that does not go on with the character
begun, or at the end of the bytes in the middle of a character.
-/

namespace MultiCaret

/-- The content of a file. -/
abbrev Bytes := List UInt8

/-- What is wrong with a sequence of bytes. -/
inductive Utf8Flaw where
  | invalidStart
  | invalidContinuation
  | unexpectedEnd
deriving DecidableEq

/-- An ill-formed sequence: its flaw, its first byte, where it starts and where it ends. -/
structure Utf8Error where
  flaw : Utf8Flaw
  first : UInt8
  start : Nat
  stop : Nat
deriving DecidableEq

namespace Utf8

/-- A character that has been begun: its first byte and where it is, the bits so far, the number of bytes that are still
missing, and the interval that the next one has to lie in. -/
structure Begun where
  first : UInt8
  start : Nat
  bits : Nat
  missing : Nat
  low : Nat
  high : Nat

/-- The character that a byte outside ASCII begins, if it begins one.  The interval of the second byte shuts out
characters that have a shorter form, surrogates, and code points beyond the last one. -/
def begin? (pos : Nat) (b : UInt8) : Option Begun :=
  let n := b.toNat
  if n < 0xC2 then none
  else if n < 0xE0 then some ⟨b, pos, n - 0xC0, 1, 0x80, 0xBF⟩
  else if n < 0xF0 then
    some ⟨b, pos, n - 0xE0, 2, if n = 0xE0 then 0xA0 else 0x80, if n = 0xED then 0x9F else 0xBF⟩
  else if n < 0xF5 then
    some ⟨b, pos, n - 0xF0, 3, if n = 0xF0 then 0x90 else 0x80, if n = 0xF4 then 0x8F else 0xBF⟩
  else none

/-- Reads bytes from the position `pos` on, in the middle of the character begun, if there is one. -/
def decodeFrom (pos : Nat) (begun : Option Begun) : Bytes → Except Utf8Error Text
  | [] =>
    match begun with
    | none => .ok []
    | some g => .error ⟨.unexpectedEnd, g.first, g.start, pos⟩
  | b :: bs =>
    match begun with
    | none =>
      if b.toNat < 0x80 then (decodeFrom (pos + 1) none bs).map (Char.ofNat b.toNat :: ·)
      else
        match begin? pos b with
        | none => .error ⟨.invalidStart, b, pos, pos + 1⟩
        | some g => decodeFrom (pos + 1) (some g) bs
    | some g =>
      if g.low ≤ b.toNat ∧ b.toNat ≤ g.high then
        let bits := 64 * g.bits + (b.toNat - 0x80)
        if g.missing ≤ 1 then (decodeFrom (pos + 1) none bs).map (Char.ofNat bits :: ·)
        else decodeFrom (pos + 1) (some { g with bits := bits, missing := g.missing - 1, low := 0x80, high := 0xBF }) bs
      else .error ⟨.invalidContinuation, g.first, g.start, pos⟩

/-- The text of some bytes. -/
def decode (bs : Bytes) : Except Utf8Error Text :=
  decodeFrom 0 none bs

/-- The bytes of a character. -/
def encodeChar (c : Char) : Bytes :=
  let n := c.toNat
  if n < 0x80 then [UInt8.ofNat n]
  else if n < 0x800 then [UInt8.ofNat (0xC0 + n / 64), UInt8.ofNat (0x80 + n % 64)]
  else if n < 0x10000 then
    [UInt8.ofNat (0xE0 + n / 4096), UInt8.ofNat (0x80 + n / 64 % 64), UInt8.ofNat (0x80 + n % 64)]
  else
    [UInt8.ofNat (0xF0 + n / 262144), UInt8.ofNat (0x80 + n / 4096 % 64), UInt8.ofNat (0x80 + n / 64 % 64),
      UInt8.ofNat (0x80 + n % 64)]

/-- The bytes of a text. -/
def encode (t : Text) : Bytes :=
  t.flatMap encodeChar

-- characters of one to four bytes
example : decode (encode ['a', 'é', '€', '😀']) = .ok ['a', 'é', '€', '😀'] := by
  rfl

end Utf8

/-- The reason in words. -/
def Utf8Flaw.reason : Utf8Flaw → String
  | .invalidStart => "invalid start byte"
  | .invalidContinuation => "invalid continuation byte"
  | .unexpectedEnd => "unexpected end of data"

/-- The error in words. -/
def Utf8Error.message (e : Utf8Error) : Text :=
  let place :=
    if e.stop = e.start + 1 then
      "byte 0x".toList ++ hexadecimal 2 e.first.toNat ++ " in position ".toList ++ natural e.start
    else "bytes in position ".toList ++ natural e.start ++ '-' :: natural (e.stop - 1)
  "'utf-8' codec can't decode ".toList ++ place ++ ": ".toList ++ e.flaw.reason.toList

/-- The text with every line end written as a newline, whether it was a carriage return, a newline or both. -/
def universalNewlines : Text → Text
  | [] => []
  | '\r' :: '\n' :: cs => '\n' :: universalNewlines cs
  | c :: cs => (if c = '\r' then '\n' else c) :: universalNewlines cs

end MultiCaret
