import MultiCaret.Document.Basic

/-!
# The flat text

A document as one text, with newlines between its lines, and its positions as offsets into this text.  The key facts
are `joinLines_split_at` and `offset_le`: a position in the lines cuts the flat text at its offset, into the part in
front of it and the part behind it.
-/

namespace MultiCaret

/-- The number of characters in front of the line `n`, newlines included. -/
def lineOffset (lines : List Text) (n : Nat) : Nat :=
  (lines.take n).foldr (fun l k => l.length + 1 + k) 0

/-- The number of characters in front of a position, newlines included. -/
def offset (lines : List Text) (p : Position) : Nat :=
  lineOffset lines p.line.toNat + p.column.toNat

/-- The text with some of its stretches replaced.  Each stretch is given by its ends and its new text; they are in
order, and `reached` is the end of the last one that is done. -/
def replaceStretches (t : Text) (reached : Nat) : List (Nat × Nat × Text) → Text
  | [] => t.drop reached
  | (a, b, new) :: rest => (t.take a).drop reached ++ new ++ replaceStretches t b rest

/-- The stretch of the flat text that an edit replaces, and its new text. -/
def Edit.stretch (lines : List Text) (e : Edit) : Nat × Nat × Text :=
  (offset lines e.start, offset lines e.stop, e.text)

theorem lineOffset_zero (lines : List Text) : lineOffset lines 0 = 0 := rfl

theorem lineOffset_succ (l : Text) (ls : List Text) (n : Nat) :
    lineOffset (l :: ls) (n + 1) = l.length + 1 + lineOffset ls n := by
  simp [lineOffset]

/-- A place in a line cuts the flat text into the lines above it with its own line up to there, and the rest of its line
with the lines below. -/
theorem joinLines_split_at {lines : List Text} {n : Nat} {l : Text} (h : lines[n]? = some l) {k : Nat}
    (hk : k ≤ l.length) :
    (joinLines lines).take (lineOffset lines n + k) = joinLines (lines.take n ++ [l.take k]) ∧
      (joinLines lines).drop (lineOffset lines n + k) = joinLines (l.drop k :: lines.drop (n + 1)) := by
  induction n generalizing lines with
  | zero =>
    cases lines with
    | nil => simp at h
    | cons m ms =>
      obtain rfl : m = l := by simpa using h
      cases ms with
      | nil => simp [lineOffset, joinWith]
      | cons m' ms' =>
        simp only [lineOffset_zero, Nat.zero_add, joinWith, List.take_zero, List.nil_append, List.drop_succ_cons,
          List.drop_zero]
        rw [List.take_append_of_le_length hk, List.drop_append_of_le_length hk]
        exact ⟨rfl, rfl⟩
  | succ n ih =>
    cases lines with
    | nil => simp at h
    | cons m ms =>
      rw [List.getElem?_cons_succ] at h
      have hne : ms ≠ [] := by rintro rfl; simp at h
      obtain ⟨ht, hd⟩ := ih h
      have e : lineOffset (m :: ms) (n + 1) + k = m.length + (1 + (lineOffset ms n + k)) := by
        rw [lineOffset_succ]; omega
      rw [joinLines_cons hne, e, List.take_length_add_append, List.drop_length_add_append, Nat.add_comm 1,
        List.take_succ_cons, List.drop_succ_cons, ht, hd, List.take_succ_cons, List.drop_succ_cons, List.cons_append,
        joinLines_cons (by simp)]
      exact ⟨rfl, rfl⟩

/-- The offset of a place in the lines lies in the flat text. -/
theorem offset_le {lines : List Text} {n : Nat} {l : Text} (h : lines[n]? = some l) {k : Nat} (hk : k ≤ l.length) :
    lineOffset lines n + k ≤ (joinLines lines).length := by
  induction n generalizing lines with
  | zero =>
    cases lines with
    | nil => simp at h
    | cons m ms =>
      obtain rfl : m = l := by simpa using h
      cases ms with
      | nil => simpa [lineOffset, joinWith] using hk
      | cons m' ms' => simp only [lineOffset_zero, joinWith, List.length_append]; omega
  | succ n ih =>
    cases lines with
    | nil => simp at h
    | cons m ms =>
      rw [List.getElem?_cons_succ] at h
      have hne : ms ≠ [] := by rintro rfl; simp at h
      have := ih h
      rw [joinLines_cons hne, lineOffset_succ, List.length_append, List.length_cons]
      omega

/-- The character at a place of a line. -/
theorem getElem?_joinLines {lines : List Text} {n : Nat} {l : Text} (h : lines[n]? = some l) {k : Nat}
    (hk : k < l.length) : (joinLines lines)[lineOffset lines n + k]? = l[k]? := by
  obtain ⟨c, rest, hrest⟩ : ∃ c rest, l.drop k = c :: rest := ⟨_, _, List.drop_eq_getElem_cons hk⟩
  rw [← List.head?_drop, (joinLines_split_at h (Nat.le_of_lt hk)).2, ← List.head?_drop, hrest]
  cases lines.drop (n + 1) with
  | nil => rfl
  | cons m ms => rfl

end MultiCaret
