import MultiCaret.Text.Split

/-!
# Signed cuts

A column may be given as any integer: from the end of a text when it is negative, and moved to the nearest end of
the text when it lies outside.  `cutAt` is the place in the text that such a column names, `upTo` and `onward` are
the two parts around it; the key fact is that the parts make up the text (`upTo_append_onward`).
-/

namespace MultiCaret

/-- The place in a text of length `n` that the signed column `k` names. -/
def cutAt (n : Nat) (k : Int) : Nat :=
  if k < 0 then (n + k).toNat else min k.toNat n

/-- The part of a list before a signed column. -/
def upTo {α : Type} (t : List α) (k : Int) : List α :=
  t.take (cutAt t.length k)

/-- The part of a list from a signed column on. -/
def onward {α : Type} (t : List α) (k : Int) : List α :=
  t.drop (cutAt t.length k)

/-- The entry at a signed index, counted from the end when negative, if the list reaches that far. -/
def entryAt? {α : Type} (t : List α) (k : Int) : Option α :=
  if 0 ≤ k then t[k.toNat]?
  else if 0 ≤ t.length + k then t[(t.length + k).toNat]?
  else none

/-- A column that is not negative, moved to the end of the text when it lies behind it. -/
theorem exists_min_eq {n : Nat} {k : Int} (h : 0 ≤ k) : ∃ m : Nat, min k n = m ∧ m ≤ n :=
  ⟨(min k n).toNat, by omega, by omega⟩

private theorem cutAt_min (n : Nat) (k : Int) : cutAt n (min k n) = cutAt n k := by
  unfold cutAt
  split <;> split <;> omega

theorem upTo_min {α : Type} (t : List α) (k : Int) : upTo t (min k t.length) = upTo t k := by
  rw [upTo, cutAt_min, upTo]

theorem onward_min {α : Type} (t : List α) (k : Int) : onward t (min k t.length) = onward t k := by
  rw [onward, cutAt_min, onward]

theorem upTo_natCast {α : Type} (t : List α) (k : Nat) : upTo t (k : Int) = t.take k := by
  rw [upTo, cutAt, if_neg (Int.not_lt.2 (Int.natCast_nonneg k)), Int.toNat_natCast, ← List.take_eq_take_min]

theorem onward_natCast {α : Type} (t : List α) (k : Nat) : onward t (k : Int) = t.drop k := by
  rw [onward, cutAt, if_neg (Int.not_lt.2 (Int.natCast_nonneg k)), Int.toNat_natCast, ← List.drop_eq_drop_min]

theorem upTo_append_onward {α : Type} (t : List α) (k : Int) : upTo t k ++ onward t k = t :=
  List.take_append_drop _ _

end MultiCaret
