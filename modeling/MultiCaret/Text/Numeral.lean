import MultiCaret.Text.Split

/-!
# Numbers as text

Decimal and hexadecimal numerals.
-/

namespace MultiCaret

/-- A natural number in decimal. -/
def natural (n : Nat) : Text :=
  Nat.toDigits 10 n

/-- An integer in decimal, with a minus sign when it is negative. -/
def numeral (n : Int) : Text :=
  if n < 0 then '-' :: natural n.natAbs else natural n.natAbs

/-- The text behind as much filling as it needs for a width. -/
def padLeft (filling : Char) (width : Nat) (t : Text) : Text :=
  List.replicate (width - t.length) filling ++ t

/-- A natural number in lower-case hexadecimal, with at least the given number of digits. -/
def hexadecimal (width : Nat) (n : Nat) : Text :=
  padLeft '0' width (Nat.toDigits 16 n)

/-- The value of a hexadecimal digit in either case. -/
def hexValue? (c : Char) : Option Nat :=
  if '0' ≤ c ∧ c ≤ '9' then some (c.toNat - '0'.toNat)
  else if 'a' ≤ c ∧ c ≤ 'f' then some (c.toNat - 'a'.toNat + 10)
  else if 'A' ≤ c ∧ c ≤ 'F' then some (c.toNat - 'A'.toNat + 10)
  else none

/-- The number that decimal digits denote. -/
def ofDigits (ds : Text) : Nat :=
  ds.foldl (fun n d => 10 * n + (d.toNat - '0'.toNat)) 0

theorem length_padLeft (filling : Char) (width : Nat) (t : Text) :
    (padLeft filling width t).length = max width t.length := by
  simp only [padLeft, List.length_append, List.length_replicate]
  omega

theorem numeral_natCast (n : Nat) : numeral n = natural n := by
  rw [numeral, if_neg (Int.not_lt.2 (Int.natCast_nonneg n)), Int.natAbs_natCast]

/-- A numeral is made of digits, apart from the sign. -/
theorem isDigit_of_mem_numeral {c : Char} {n : Int} (h : c ∈ numeral n) : c = '-' ∨ c.isDigit = true := by
  have hdigit : ∀ m, c ∈ natural m → c.isDigit = true := fun m hm =>
    Nat.isDigit_of_mem_toDigits (by decide) (by decide) hm
  unfold numeral at h
  split at h
  · exact (List.mem_cons.1 h).imp_right (hdigit _)
  · exact Or.inr (hdigit _ h)

theorem newline_not_mem_numeral (n : Int) : '\n' ∉ numeral n := by
  intro h
  rcases isDigit_of_mem_numeral h with h | h <;> cases h

/-- The numeral of a larger number is not shorter. -/
theorem length_natural_le {m n : Nat} (h : m ≤ n) : (natural m).length ≤ (natural n).length := by
  have hpos : 0 < (Nat.toDigits 10 n).length := Nat.length_toDigits_pos
  rw [natural, natural, Nat.length_toDigits_le_iff (by decide) hpos]
  exact Nat.lt_of_le_of_lt h ((Nat.length_toDigits_le_iff (by decide) hpos).1 (Nat.le_refl _))

end MultiCaret
