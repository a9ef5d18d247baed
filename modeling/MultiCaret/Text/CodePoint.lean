import MultiCaret.Text.Split

/-!
# Texts of code points

Text that is written in units of sixteen bits can hold half of a surrogate pair without the other half.  Such a half is a
code point but no character, so a text that comes from units is a list of code points (`CodeText`).  `codeText` makes one
of ordinary text; `text?_codeText` says that nothing is lost.
-/

namespace MultiCaret

/-- A character, or a surrogate that has no partner, counted from the first one. -/
inductive CodePoint where
  | char (c : Char)
  | surrogate (n : Fin 0x800)
deriving DecidableEq

/-- A text that may hold surrogates without a partner. -/
abbrev CodeText := List CodePoint

namespace CodePoint

/-- The number of a code point. -/
def value : CodePoint → Nat
  | char c => c.toNat
  | surrogate n => 0xD800 + n.val

/-- The code point of a number. -/
def ofNat (n : Nat) : CodePoint :=
  if h : 0xD800 ≤ n ∧ n < 0xE000 then surrogate ⟨n - 0xD800, by omega⟩ else char (Char.ofNat n)

/-- The character, unless it is a surrogate. -/
def char? : CodePoint → Option Char
  | char c => some c
  | surrogate _ => none

end CodePoint

/-- Ordinary text as a text of code points. -/
def codeText (t : Text) : CodeText :=
  t.map .char

/-- The text, if it holds characters only. -/
def CodeText.text? (t : CodeText) : Option Text :=
  t.mapM CodePoint.char?

theorem text?_codeText (t : Text) : CodeText.text? (codeText t) = some t := by
  induction t with
  | nil => rfl
  | cons c cs ih =>
    simp only [CodeText.text?, codeText, List.map_cons, List.mapM_cons] at ih ⊢
    rw [ih]
    rfl

theorem codeText_inj {t u : Text} (h : codeText t = codeText u) : t = u := by
  have hsame := congrArg CodeText.text? h
  rw [text?_codeText, text?_codeText] at hsame
  exact Option.some.inj hsame

/-- The code points of units of sixteen bits: a high surrogate and a low one behind it make up one character. -/
def joinSurrogates : List Nat → CodeText
  | [] => []
  | [u] => [.ofNat u]
  | u :: v :: rest =>
    if 0xD800 ≤ u ∧ u < 0xDC00 ∧ 0xDC00 ≤ v ∧ v < 0xE000 then
      .char (Char.ofNat (0x10000 + (u - 0xD800) * 0x400 + (v - 0xDC00))) :: joinSurrogates rest
    else .ofNat u :: joinSurrogates (v :: rest)

end MultiCaret
