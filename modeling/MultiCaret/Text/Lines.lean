import MultiCaret.Text.Split

/-!
# Lines of a text

The lines of a text are its pieces between newlines.  Other line separators are characters like any other.
-/

namespace MultiCaret

/-- The lines of a text.  There is always at least one. -/
abbrev splitLines (t : Text) : List Text :=
  splitOn '\n' t

/-- The text that has the given lines. -/
abbrev joinLines (ls : List Text) : Text :=
  joinWith '\n' ls

theorem joinLines_cons {l : Text} {ls : List Text} (h : ls ≠ []) : joinLines (l :: ls) = l ++ '\n' :: joinLines ls :=
  joinWith_cons h

theorem joinLines_concat (ls : List Text) (l : Text) :
    joinLines (ls ++ [l]) = ls.flatMap (fun l => l ++ ['\n']) ++ l := by
  induction ls with
  | nil => rfl
  | cons m ms ih =>
    rw [List.cons_append, joinLines_cons (by simp), ih, List.flatMap_cons, List.append_assoc, List.append_assoc]
    rfl

end MultiCaret
